import Protospy.Proxy.Errors
import Protospy.Lib.Ascii
import Mathlib.Data.Fin.VecNotation

/-!
# Forwarded headers (`headers.rs`)
-/

namespace Protospy

namespace HeaderName

def connection : HeaderName := ⟨"connection", by decide⟩
def keepAlive : HeaderName := ⟨"keep-alive", by decide⟩
def proxyAuthenticate : HeaderName := ⟨"proxy-authenticate", by decide⟩
def host : HeaderName := ⟨"host", by decide⟩
def via : HeaderName := ⟨"via", by decide⟩
def xForwardedFor : HeaderName := ⟨"x-forwarded-for", by decide⟩
def xForwardedHost : HeaderName := ⟨"x-forwarded-host", by decide⟩
def xForwardedProto : HeaderName := ⟨"x-forwarded-proto", by decide⟩
def server : HeaderName := ⟨"server", by decide⟩
def xCause : HeaderName := ⟨"x-cause", by decide⟩
def contentType : HeaderName := ⟨"content-type", by decide⟩
def contentEncoding : HeaderName := ⟨"content-encoding", by decide⟩

end HeaderName

def serverName : String := "protospy"

inductive IpAddr where
  | v4 (octets : Fin 4 → UInt8)
  | v6 (segments : Fin 8 → UInt16)

def Ipv4.toText (octets : Fin 4 → UInt8) : String :=
  ".".intercalate (List.ofFn fun i => toString (octets i).toNat)

namespace Ipv6

def hex (n : UInt16) : String := String.ofList (Nat.toDigits 16 n.toNat)

/-- Length of the run of zero segments that starts the list. -/
def zeroRun (segments : List UInt16) : Nat := (segments.takeWhile (· = 0)).length

/-- Start and length of the first longest run of zero segments. -/
def longestZeroRun (segments : List UInt16) : Nat × Nat :=
  (List.range segments.length).foldl
    (fun best i => let n := zeroRun (segments.drop i); if best.2 < n then (i, n) else best) (0, 0)

def colons (segments : List UInt16) : String := ":".intercalate (segments.map hex)

/-- The IPv4 address of a mapped address `::ffff:a.b.c.d`. -/
def toIpv4Mapped (segments : Fin 8 → UInt16) : Option (Fin 4 → UInt8) :=
  if segments 0 = 0 ∧ segments 1 = 0 ∧ segments 2 = 0 ∧ segments 3 = 0 ∧ segments 4 = 0 ∧
      segments 5 = 0xffff then
    some ![(segments 6 / 256).toUInt8, (segments 6).toUInt8,
      (segments 7 / 256).toUInt8, (segments 7).toUInt8]
  else none

/-- The longest run of at least two zero segments is written `::`. -/
def toText (segments : Fin 8 → UInt16) : String :=
  match toIpv4Mapped segments with
  | some octets => "::ffff:" ++ Ipv4.toText octets
  | none =>
    let all := List.ofFn segments
    let (start, len) := longestZeroRun all
    if 1 < len then colons (all.take start) ++ "::" ++ colons (all.drop (start + len))
    else colons all

end Ipv6

structure ConnInfo where
  protocol : String
  client : IpAddr

/-- An IPv4 address in IPv6 clothing is written as IPv4. -/
def formatIpAddr : IpAddr → String
  | .v4 octets => Ipv4.toText octets
  | .v6 segments => match Ipv6.toIpv4Mapped segments with
    | some octets => Ipv4.toText octets
    | none => Ipv6.toText segments

def httpVersionNum : Version → Except Report String
  | .http09 => .ok "0.9"
  | .http10 => .ok "1.0"
  | .http11 => .ok "1.1"
  | .http2 => .ok "2"
  | .http3 => .ok "3"

/-- A `Via` value, for example `1.1 protospy`. -/
def viaHeader (version : Version) : Except Report String :=
  (httpVersionNum version).map fun num => num ++ " " ++ serverName

theorem printable_formatIpAddr (addr : IpAddr) : Ascii.Printable (formatIpAddr addr) := by
  have v4 : ∀ octets, Ascii.Printable (Ipv4.toText octets) := by
    intro octets
    refine Ascii.Printable.intercalate (.of_all (by decide)) fun s hs => ?_
    obtain ⟨i, rfl⟩ := List.mem_ofFn.mp hs
    exact Ascii.printable_toString _
  have colons : ∀ segments, Ascii.Printable (Ipv6.colons segments) := by
    intro segments
    refine Ascii.Printable.intercalate (.of_all (by decide)) fun s hs => ?_
    obtain ⟨n, -, rfl⟩ := List.mem_map.mp hs
    intro c hc
    have digit : c ∈ Nat.toDigits 16 n.toNat := by simpa [Ipv6.hex] using hc
    exact Ascii.isPrintable_toDigits (by omega) n.toNat c digit
  cases addr with
  | v4 octets => exact v4 octets
  | v6 segments =>
    cases mapped : Ipv6.toIpv4Mapped segments with
    | some octets => simpa [formatIpAddr, mapped] using v4 octets
    | none =>
      simp only [formatIpAddr, mapped, Ipv6.toText]
      split
      · exact ((colons _).append (.of_all (by decide))).append (colons _)
      · exact colons _

def parseHeaderValue (s : String) : Except Report HeaderValue :=
  match HeaderValue.fromStr s with
  | some v => .ok v
  | none => .error .invalidHeaderValue

theorem parseHeaderValue_printable {s : String} (printable : Ascii.Printable s) :
    ∃ v, parseHeaderValue s = .ok v := by
  have valid : s.toUTF8.toList.all HeaderValue.isValid = true := by
    refine List.all_eq_true.mpr fun b hb => ?_
    obtain ⟨lower, upper⟩ := Ascii.toUTF8_of_printable printable b hb
    simp only [HeaderValue.isValid]
    grind
  exact ⟨⟨_, valid⟩, by rw [parseHeaderValue, HeaderValue.fromStr, HeaderValue.ofBytes, dif_pos valid]⟩

def stripRequestHeaders : List HeaderName := [.connection, .keepAlive]

def stripResponseHeaders : List HeaderName := [.connection, .keepAlive, .proxyAuthenticate]

/-- Compute headers to use for the forwarded request. -/
def requestHeaders (target : String) (req : RequestParts) (conn : ConnInfo) :
    Except Report HeaderMap := do
  let reqH := req.headers.insert .host (← parseHeaderValue target)
  let hopHeaders := (reqH.getAll .connection).filterMap HeaderValue.toStr
  let reqH := hopHeaders.foldl HeaderMap.removeStr reqH
  let reqH := stripRequestHeaders.foldl HeaderMap.remove reqH
  let reqH := reqH.append .via (← parseHeaderValue (← viaHeader req.version))
  let reqH := match req.headers.get .host with
    | some hostVal => reqH.append .xForwardedHost hostVal
    | none => reqH
  let reqH := reqH.append .xForwardedFor (← parseHeaderValue (formatIpAddr conn.client))
  .ok (reqH.append .xForwardedProto (← parseHeaderValue conn.protocol))

/-- Compute headers to use for the forwarded response. -/
def responseHeaders (orig : ResponseParts) : Except Report HeaderMap := do
  let headers := stripResponseHeaders.foldl HeaderMap.remove orig.headers
  .ok (headers.append .via (← parseHeaderValue (← viaHeader orig.version)))

end Protospy
