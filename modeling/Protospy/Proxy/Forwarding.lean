import Protospy.Proxy.Transparency

/-!
# Which header fields are forwarded

A `Connection` value is a list of options between commas. The options name the
fields that concern one connection only.
-/

namespace Protospy

namespace HeaderValue

/-- The octets of the value, each as one character. -/
def chars (v : HeaderValue) : List Char := v.bytes.map fun b => Char.ofNat b.toNat

def isOptionalSpace (c : Char) : Bool := c == ' ' || c == '\t'

def trimOptionalSpace (cs : List Char) : List Char :=
  ((cs.dropWhile isOptionalSpace).reverse.dropWhile isOptionalSpace).reverse

/-- The options between the commas, in lower case. -/
def options (v : HeaderValue) : List (List Char) :=
  (v.chars.splitOn ',').map fun option => (trimOptionalSpace option).map Char.toLower

/-- The name that the value as a whole spells, if it does. -/
def asName (v : HeaderValue) : Option HeaderName := v.toStr.bind HeaderName.fromStr

end HeaderValue

namespace HeaderMap

def connectionOptions (m : HeaderMap) : List (List Char) :=
  (m.getAll .connection).flatMap HeaderValue.options

/-- Some connection option names the field. -/
def Nominates (m : HeaderMap) (name : HeaderName) : Prop :=
  name.text.toList ∈ m.connectionOptions

instance (m : HeaderMap) (name : HeaderName) : Decidable (m.Nominates name) :=
  inferInstanceAs (Decidable (_ ∈ _))

/-- Some `Connection` value is the name of the field and nothing else. -/
def NominatesAlone (m : HeaderMap) (name : HeaderName) : Prop :=
  ∃ v ∈ m.getAll .connection, v.asName = some name

instance (m : HeaderMap) (name : HeaderName) : Decidable (m.NominatesAlone name) :=
  inferInstanceAs (Decidable (∃ v ∈ _, _))

end HeaderMap

theorem HeaderValue.trimOptionalSpace_eq_self {cs : List Char}
    (none : ∀ c ∈ cs, HeaderValue.isOptionalSpace c = false) :
    HeaderValue.trimOptionalSpace cs = cs := by
  have keep : ∀ {ds : List Char}, (∀ d ∈ ds, HeaderValue.isOptionalSpace d = false) →
      ds.dropWhile HeaderValue.isOptionalSpace = ds := by
    intro ds h
    cases ds with
    | nil => rfl
    | cons d ds => simp [h d]
  rw [trimOptionalSpace, keep none, keep (by simpa using none), List.reverse_reverse]

theorem HeaderName.isToken_spec {c : Char} (token : HeaderName.isToken c = true) :
    c ≠ ',' ∧ HeaderValue.isOptionalSpace c = false := by
  constructor
  · rintro rfl
    exact absurd token (by decide)
  · by_cases blank : c = ' '
    · exact absurd (blank ▸ token) (by decide)
    · by_cases tab : c = '\t'
      · exact absurd (tab ▸ token) (by decide)
      · simp [HeaderValue.isOptionalSpace, blank, tab]

/-- A value that is one name has that name as its only option. -/
theorem HeaderValue.options_of_asName {v : HeaderValue} {name : HeaderName}
    (alone : v.asName = some name) : v.options = [name.text.toList] := by
  obtain ⟨text, shown, parsed⟩ := Option.bind_eq_some_iff.mp alone
  have text_chars : text.toList = v.chars := by
    rw [toStr] at shown
    split at shown
    · obtain rfl := Option.some.inj shown
      simp [chars]
    · cases shown
  rw [HeaderName.fromStr] at parsed
  split at parsed
  · rename_i token
    obtain rfl := Option.some.inj parsed
    have tokens : ∀ c ∈ v.chars, HeaderName.isToken c = true := by
      simpa [text_chars] using token.2
    have single : v.chars.splitOn ',' = [v.chars] := by
      rw [List.splitOn_eq_splitOnP]
      refine List.splitOnP_eq_singleton fun c hc => ?_
      simpa using (HeaderName.isToken_spec (tokens c hc)).1
    have trimmed := trimOptionalSpace_eq_self fun c hc =>
      (HeaderName.isToken_spec (tokens c hc)).2
    simp [options, single, trimmed, text_chars]
  · cases parsed

theorem HeaderMap.NominatesAlone.nominates {m : HeaderMap} {name : HeaderName}
    (alone : m.NominatesAlone name) : m.Nominates name := by
  obtain ⟨v, member, names⟩ := alone
  refine List.mem_flatMap.mpr ⟨v, member, ?_⟩
  simp [HeaderValue.options_of_asName names]

/-! ## The maps that are forwarded -/

theorem bind_eq_ok {ε α β : Type} {x : Except ε α} {f : α → Except ε β} {r : β} :
    (x >>= f) = .ok r ↔ ∃ a, x = .ok a ∧ f a = .ok r := by
  cases x with
  | error err => simp [bind, Except.bind]
  | ok a => simp [bind, Except.bind]

theorem mem_removed_iff (m : HeaderMap) (name : HeaderName) :
    some name ∈ ((m.getAll .connection).filterMap HeaderValue.toStr).map HeaderName.fromStr ↔
      m.NominatesAlone name := by
  simp only [HeaderMap.NominatesAlone, HeaderValue.asName, List.mem_map, List.mem_filterMap,
    Option.bind_eq_some_iff]
  constructor
  · rintro ⟨text, ⟨v, member, shown⟩, parsed⟩
    exact ⟨v, member, text, shown, parsed⟩
  · rintro ⟨v, member, text, shown, parsed⟩
    exact ⟨text, ⟨v, member, shown⟩, parsed⟩

/-- The values that the proxy adds to those of a request field. -/
def requestAdditions (req : RequestParts) (via forwardedFor proto : HeaderValue)
    (name : HeaderName) : List HeaderValue :=
  (if name = .via then [via] else []) ++
  (if name = .xForwardedHost then (req.headers.get .host).toList else []) ++
  (if name = .xForwardedFor then [forwardedFor] else []) ++
  (if name = .xForwardedProto then [proto] else [])

/-- What a request field holds before the proxy adds to it. -/
def keptRequestValues (req : RequestParts) (host : HeaderValue) (name : HeaderName) :
    List HeaderValue :=
  if req.headers.NominatesAlone name ∨ name ∈ stripRequestHeaders then []
  else if name = .host then [host]
  else req.headers.getAll name

/-- The request headers can be computed when the target and the protocol are
header values; the other values always are. -/
theorem requestHeaders_values {target : String} {conn : ConnInfo} {host proto : HeaderValue}
    (hostParsed : parseHeaderValue target = .ok host)
    (protoParsed : parseHeaderValue conn.protocol = .ok proto) (req : RequestParts) :
    ∃ out via forwardedFor, requestHeaders target req conn = .ok out ∧
      parseHeaderValue (formatIpAddr conn.client) = .ok forwardedFor ∧
      ∀ name, out.getAll name = keptRequestValues req host name ++
        requestAdditions req via forwardedFor proto name := by
  obtain ⟨viaText, via, viaOk, viaParsed⟩ := viaHeader_ok req.version
  obtain ⟨forwardedFor, forParsed⟩ :=
    parseHeaderValue_printable (printable_formatIpAddr conn.client)
  have hop : (req.headers.insert .host host).getAll .connection =
      req.headers.getAll .connection := by
    rw [HeaderMap.getAll_insert, if_neg (by decide)]
  -- the map to which the additions are made
  have kept : ∀ name, (stripRequestHeaders.foldl HeaderMap.remove
      (((req.headers.getAll .connection).filterMap HeaderValue.toStr).foldl HeaderMap.removeStr
        (req.headers.insert .host host))).getAll name = keptRequestValues req host name := by
    intro name
    rw [HeaderMap.getAll_foldl_remove, HeaderMap.getAll_foldl_removeStr, keptRequestValues,
      HeaderMap.getAll_insert]
    simp only [mem_removed_iff]
    by_cases alone : req.headers.NominatesAlone name <;>
      by_cases strip : name ∈ stripRequestHeaders <;> simp [alone, strip]
  refine ⟨_, via, forwardedFor, by
    simp only [requestHeaders, hostParsed, viaOk, viaParsed, forParsed, protoParsed, bind,
      Except.bind]
    rfl, forParsed, fun name => ?_⟩
  rw [hop]
  cases hostVal : req.headers.get .host with
  | none => simp [kept, requestAdditions, hostVal]
  | some v => simp [kept, requestAdditions, hostVal]

/-- No header is forwarded for a target or a protocol that is no header value. -/
theorem requestHeaders_parsed {target : String} {req : RequestParts} {conn : ConnInfo}
    {out : HeaderMap} (sent : requestHeaders target req conn = .ok out) :
    ∃ host proto, parseHeaderValue target = .ok host ∧
      parseHeaderValue conn.protocol = .ok proto := by
  obtain ⟨host, hostParsed, sent⟩ := bind_eq_ok.mp sent
  obtain ⟨viaText, -, sent⟩ := bind_eq_ok.mp sent
  obtain ⟨via, -, sent⟩ := bind_eq_ok.mp sent
  obtain ⟨forwardedFor, -, sent⟩ := bind_eq_ok.mp sent
  obtain ⟨proto, protoParsed, -⟩ := bind_eq_ok.mp sent
  exact ⟨host, proto, hostParsed, protoParsed⟩

/-- What the headers of a request that is sent hold. -/
theorem requestHeaders_sent {target : String} {req : RequestParts} {conn : ConnInfo}
    {out : HeaderMap} (sent : requestHeaders target req conn = .ok out) :
    ∃ host via forwardedFor proto, parseHeaderValue target = .ok host ∧
      parseHeaderValue (formatIpAddr conn.client) = .ok forwardedFor ∧
      parseHeaderValue conn.protocol = .ok proto ∧
      ∀ name, out.getAll name = keptRequestValues req host name ++
        requestAdditions req via forwardedFor proto name := by
  obtain ⟨host, proto, hostParsed, protoParsed⟩ := requestHeaders_parsed sent
  obtain ⟨out', via, forwardedFor, sent', forParsed, values⟩ :=
    requestHeaders_values hostParsed protoParsed req
  obtain rfl := Except.ok.inj (sent.symm.trans sent')
  exact ⟨host, via, forwardedFor, proto, hostParsed, forParsed, protoParsed, values⟩

/-- A response field keeps its values unless it is one of the three that are
stripped, and `Via` gets one more. -/
theorem responseHeaders_values (orig : ResponseParts) :
    ∃ out via, responseHeaders orig = .ok out ∧
      ∀ name, out.getAll name =
        (if name ∈ stripResponseHeaders then [] else orig.headers.getAll name) ++
          if name = .via then [via] else [] := by
  obtain ⟨viaText, via, viaOk, viaParsed⟩ := viaHeader_ok orig.version
  refine ⟨_, via, by
    simp only [responseHeaders, viaOk, viaParsed, bind, Except.bind]
    rfl, fun name => ?_⟩
  rw [HeaderMap.getAll_append, HeaderMap.getAll_foldl_remove]

/-! ## Fields of the hop -/

/-- The request fields that the proxy sets or adds to. -/
def addedToRequest : List HeaderName :=
  [.host, .via, .xForwardedFor, .xForwardedHost, .xForwardedProto]

def addedToResponse : List HeaderName := [.via]

/-- Nothing of the hop is forwarded, apart from fields that the proxy adds. -/
structure HopRemoved (added : List HeaderName) (incoming forwarded : HeaderMap) : Prop where
  connection : forwarded.containsKey .connection = false
  keepAlive : forwarded.containsKey .keepAlive = false
  nominated : ∀ name, incoming.Nominates name → name ∉ added →
    forwarded.containsKey name = false

theorem requestAdditions_of_notMem {req : RequestParts} {via forwardedFor proto : HeaderValue}
    {name : HeaderName} (foreign : name ∉ addedToRequest) :
    requestAdditions req via forwardedFor proto name = [] := by
  simp only [addedToRequest, List.mem_cons, List.not_mem_nil, or_false, not_or] at foreign
  obtain ⟨-, via, forwardedFor, forwardedHost, proto⟩ := foreign
  simp [requestAdditions, via, forwardedFor, forwardedHost, proto]

/-- A field to which the proxy adds nothing is missing where it is dropped and where it
was missing before. -/
theorem containsKey_requestHeaders {target : String} {req : RequestParts} {conn : ConnInfo}
    {out : HeaderMap} (sent : requestHeaders target req conn = .ok out) {name : HeaderName}
    (foreign : name ∉ addedToRequest) : out.containsKey name = false ↔
      req.headers.NominatesAlone name ∨ name ∈ stripRequestHeaders ∨
        req.headers.containsKey name = false := by
  obtain ⟨host, via, forwardedFor, proto, -, -, -, values⟩ := requestHeaders_sent sent
  have notHost : name ≠ .host := by
    rintro rfl
    exact foreign (by decide)
  rw [HeaderMap.containsKey_eq_false_iff, HeaderMap.containsKey_eq_false_iff, values,
    requestAdditions_of_notMem foreign, List.append_nil, keptRequestValues, if_neg notHost]
  by_cases dropped : req.headers.NominatesAlone name ∨ name ∈ stripRequestHeaders
  · simp only [dropped, if_true, true_iff]
    tauto
  · simp only [dropped, if_false]
    tauto

theorem request_hopRemoved_iff {target : String} {req : RequestParts} {conn : ConnInfo}
    {out : HeaderMap} (sent : requestHeaders target req conn = .ok out) :
    HopRemoved addedToRequest req.headers out ↔
      ∀ name, req.headers.Nominates name → name ∉ addedToRequest ++ stripRequestHeaders →
        req.headers.containsKey name = true → req.headers.NominatesAlone name := by
  constructor
  · intro removed name nominated foreign present
    rw [List.mem_append, not_or] at foreign
    have gone := removed.nominated name nominated foreign.1
    rcases (containsKey_requestHeaders sent foreign.1).mp gone with alone | strip | gone
    · exact alone
    · exact absurd strip foreign.2
    · rw [gone] at present
      cases present
  · intro whole
    refine ⟨(containsKey_requestHeaders sent (by decide)).mpr (.inr (.inl (by decide))),
      (containsKey_requestHeaders sent (by decide)).mpr (.inr (.inl (by decide))),
      fun name nominated foreign => ?_⟩
    refine (containsKey_requestHeaders sent foreign).mpr ?_
    by_cases strip : name ∈ stripRequestHeaders
    · exact .inr (.inl strip)
    · cases present : req.headers.containsKey name with
      | false => exact .inr (.inr rfl)
      | true =>
        exact .inl (whole name nominated (by simp [foreign, strip]) present)

theorem response_hopRemoved_iff {orig : ResponseParts} {out : HeaderMap}
    (sent : responseHeaders orig = .ok out) :
    HopRemoved addedToResponse orig.headers out ↔
      ∀ name, orig.headers.Nominates name → name ∉ addedToResponse ++ stripResponseHeaders →
        orig.headers.containsKey name = false := by
  obtain ⟨out', via, sent', values⟩ := responseHeaders_values orig
  obtain rfl := Except.ok.inj (sent.symm.trans sent')
  have absent : ∀ name, name ∉ addedToResponse → (out.containsKey name = false ↔
      name ∈ stripResponseHeaders ∨ orig.headers.containsKey name = false) := by
    intro name foreign
    have notVia : name ≠ .via := by simpa [addedToResponse] using foreign
    rw [HeaderMap.containsKey_eq_false_iff, HeaderMap.containsKey_eq_false_iff, values,
      if_neg notVia, List.append_nil]
    by_cases strip : name ∈ stripResponseHeaders <;> simp [strip]
  constructor
  · intro removed name nominated foreign
    rw [List.mem_append, not_or] at foreign
    exact ((absent name foreign.1).mp (removed.nominated name nominated foreign.1)).resolve_left
      foreign.2
  · intro none
    refine ⟨(absent _ (by decide)).mpr (.inl (by decide)),
      (absent _ (by decide)).mpr (.inl (by decide)), fun name nominated foreign => ?_⟩
    refine (absent name foreign).mpr ?_
    by_cases strip : name ∈ stripResponseHeaders
    · exact .inl strip
    · exact .inr (none name nominated (by simp [foreign, strip]))

/-- In both directions: a field named among several options is forwarded in a
request, and any nominated field in a response. -/
theorem forwarded_hopRemoved_iff (target : String) (req : RequestParts) (conn : ConnInfo)
    (orig : ResponseParts) (out out' : HeaderMap) :
    (requestHeaders target req conn = .ok out →
      (HopRemoved addedToRequest req.headers out ↔
        ∀ name, req.headers.Nominates name → name ∉ addedToRequest ++ stripRequestHeaders →
          req.headers.containsKey name = true → req.headers.NominatesAlone name)) ∧
    (responseHeaders orig = .ok out' →
      (HopRemoved addedToResponse orig.headers out' ↔
        ∀ name, orig.headers.Nominates name → name ∉ addedToResponse ++ stripResponseHeaders →
          orig.headers.containsKey name = false)) :=
  ⟨request_hopRemoved_iff, response_hopRemoved_iff⟩

def HeaderName.xSecret : HeaderName := ⟨"x-secret", by decide⟩

/-- The fields `Connection: <options>` and `X-Secret: s`. -/
def secretFields (options : HeaderValue) : HeaderMap :=
  (HeaderMap.new.append .connection options).append .xSecret ⟨[115], by decide⟩

def secretAlone : HeaderValue := ⟨"x-secret".toUTF8.toList, by decide +kernel⟩

def closeAndSecret : HeaderValue := ⟨"close, X-Secret".toUTF8.toList, by decide +kernel⟩

def requestWith (fields : HeaderMap) : RequestParts := ⟨"GET", ⟨none, "", "/"⟩, .http11, fields⟩

def responseWith (fields : HeaderMap) : ResponseParts := ⟨.ok, .http11, fields⟩

theorem requestHeaders_with (fields : HeaderMap) :
    ∃ out, requestHeaders "db" (requestWith fields) localConn = .ok out := by
  obtain ⟨host, hostParsed⟩ := parseHeaderValue_printable (s := "db") (.of_all (by decide))
  obtain ⟨proto, protoParsed⟩ :=
    parseHeaderValue_printable (s := localConn.protocol) (.of_all (by decide))
  obtain ⟨out, -, -, sent, -, -⟩ :=
    requestHeaders_values hostParsed protoParsed (requestWith fields)
  exact ⟨out, sent⟩

theorem forwarded_hopRemoved_alone :
    (∃ out, requestHeaders "db" (requestWith (secretFields secretAlone)) localConn = .ok out ∧
      (HopRemoved addedToRequest (secretFields secretAlone) out ↔
        ∀ name, (secretFields secretAlone).Nominates name →
          name ∉ addedToRequest ++ stripRequestHeaders →
            (secretFields secretAlone).containsKey name = true →
              (secretFields secretAlone).NominatesAlone name)) ∧
    ∃ out, responseHeaders (responseWith .new) = .ok out ∧
      (HopRemoved addedToResponse .new out ↔
        ∀ name, HeaderMap.new.Nominates name → name ∉ addedToResponse ++ stripResponseHeaders →
          HeaderMap.new.containsKey name = false) := by
  obtain ⟨out, sent⟩ := requestHeaders_with (secretFields secretAlone)
  obtain ⟨out', -, sent', -⟩ := responseHeaders_values (responseWith .new)
  have both := forwarded_hopRemoved_iff "db" (requestWith (secretFields secretAlone)) localConn
    (responseWith .new) out out'
  exact ⟨⟨out, sent, both.1 sent⟩, ⟨out', sent', both.2 sent'⟩⟩

theorem forwarded_secret :
    (¬ ∀ target req conn out, requestHeaders target req conn = .ok out →
      HopRemoved addedToRequest req.headers out) ∧
    (¬ ∀ orig out, responseHeaders orig = .ok out →
      HopRemoved addedToResponse orig.headers out) := by
  have nominated : (secretFields closeAndSecret).Nominates .xSecret := by decide +kernel
  have present : (secretFields closeAndSecret).containsKey .xSecret = true := by decide
  constructor
  · intro claim
    obtain ⟨out, sent⟩ := requestHeaders_with (secretFields closeAndSecret)
    have alone := (request_hopRemoved_iff sent).mp (claim _ _ _ _ sent) .xSecret nominated
      (by decide) present
    exact absurd alone (by decide +kernel)
  · intro claim
    obtain ⟨out, -, sent, -⟩ := responseHeaders_values (responseWith (secretFields closeAndSecret))
    have absent := (response_hopRemoved_iff sent).mp (claim _ _ sent) .xSecret nominated
      (by decide)
    exact absurd (present.symm.trans absent) (by decide)

/-! ## Fields that go from end to end -/

/-- What the proxy does to a field that it neither removes nor adds to: nothing.
It appends one value to `Via` and to the `X-Forwarded` fields (the host only if
the request has one), and it sets `Host`. -/
structure RequestPreserved (target : String) (req : RequestParts) (conn : ConnInfo)
    (out : HeaderMap) : Prop where
  others : ∀ name, name ∉ addedToRequest ++ stripRequestHeaders →
    ¬ req.headers.Nominates name → out.getAll name = req.headers.getAll name
  removed : ∀ name ∈ stripRequestHeaders, out.getAll name = []
  via : ∃ v, out.getAll .via = req.headers.getAll .via ++ [v]
  forwardedFor : ∃ v, parseHeaderValue (formatIpAddr conn.client) = .ok v ∧
    out.getAll .xForwardedFor = req.headers.getAll .xForwardedFor ++ [v]
  forwardedProto : ∃ v, parseHeaderValue conn.protocol = .ok v ∧
    out.getAll .xForwardedProto = req.headers.getAll .xForwardedProto ++ [v]
  forwardedHost : out.getAll .xForwardedHost =
    req.headers.getAll .xForwardedHost ++ (req.headers.get .host).toList
  host : ∃ v, parseHeaderValue target = .ok v ∧ out.getAll .host = [v]

structure ResponsePreserved (orig : ResponseParts) (out : HeaderMap) : Prop where
  others : ∀ name, name ∉ addedToResponse ++ stripResponseHeaders →
    out.getAll name = orig.headers.getAll name
  removed : ∀ name ∈ stripResponseHeaders, out.getAll name = []
  via : ∃ v, out.getAll .via = orig.headers.getAll .via ++ [v]

theorem keptRequestValues_of_strip {req : RequestParts} {host : HeaderValue} {name : HeaderName}
    (strip : name ∈ stripRequestHeaders) : keptRequestValues req host name = [] := by
  rw [keptRequestValues, if_pos (.inr strip)]

theorem keptRequestValues_of_kept {req : RequestParts} {host : HeaderValue} {name : HeaderName}
    (notNominated : ¬ req.headers.Nominates name) (notStripped : name ∉ stripRequestHeaders) :
    keptRequestValues req host name =
      if name = .host then [host] else req.headers.getAll name := by
  have stays : ¬ (req.headers.NominatesAlone name ∨ name ∈ stripRequestHeaders) := by
    rintro (alone | strip)
    · exact notNominated alone.nominates
    · exact notStripped strip
  rw [keptRequestValues, if_neg stays]

theorem notMem_strip_of_added : ∀ name ∈ addedToRequest, name ∉ stripRequestHeaders := by decide

theorem request_preserved {target : String} {req : RequestParts} {conn : ConnInfo}
    {out : HeaderMap} (foreign : ∀ name ∈ addedToRequest, ¬ req.headers.Nominates name)
    (sent : requestHeaders target req conn = .ok out) : RequestPreserved target req conn out := by
  obtain ⟨host, via, forwardedFor, proto, hostParsed, forParsed, protoParsed, values⟩ :=
    requestHeaders_sent sent
  have added : ∀ name ∈ addedToRequest, out.getAll name =
      (if name = .host then [host] else req.headers.getAll name) ++
        requestAdditions req via forwardedFor proto name := by
    intro name member
    rw [values, keptRequestValues_of_kept (foreign name member) (notMem_strip_of_added name member)]
  constructor
  case others =>
    intro name unmanaged notNominated
    rw [List.mem_append, not_or] at unmanaged
    have notHost : name ≠ .host := by
      rintro rfl
      exact unmanaged.1 (by decide)
    rw [values, keptRequestValues_of_kept notNominated unmanaged.2, if_neg notHost,
      requestAdditions_of_notMem unmanaged.1, List.append_nil]
  case removed =>
    intro name strip
    have notAdded : name ∉ addedToRequest := fun member => notMem_strip_of_added name member strip
    rw [values, requestAdditions_of_notMem notAdded, keptRequestValues_of_strip strip]
    rfl
  case via => exact ⟨via, added .via (by decide)⟩
  case forwardedFor => exact ⟨forwardedFor, forParsed, added .xForwardedFor (by decide)⟩
  case forwardedProto => exact ⟨proto, protoParsed, added .xForwardedProto (by decide)⟩
  case forwardedHost =>
    have only : requestAdditions req via forwardedFor proto .xForwardedHost =
        (req.headers.get .host).toList := by
      change [] ++ (req.headers.get .host).toList ++ [] ++ [] = _
      simp
    have values := added .xForwardedHost (by decide)
    rw [only] at values
    exact values
  case host => exact ⟨host, hostParsed, added .host (by decide)⟩

theorem response_preserved (orig : ResponseParts) :
    ∃ out, responseHeaders orig = .ok out ∧ ResponsePreserved orig out := by
  obtain ⟨out, via, sent, values⟩ := responseHeaders_values orig
  refine ⟨out, sent, ?_, ?_, ⟨via, values .via⟩⟩
  · intro name unmanaged
    rw [List.mem_append, not_or] at unmanaged
    have notVia : name ≠ .via := by simpa [addedToResponse] using unmanaged.1
    rw [values, if_neg unmanaged.2, if_neg notVia, List.append_nil]
  · intro name strip
    have notVia : name ≠ .via := by
      rintro rfl
      exact absurd strip (by decide)
    rw [values, if_pos strip, if_neg notVia]
    rfl

/-- Every other field keeps its list of values in both directions. -/
theorem forwarded_preserved :
    (∀ target req conn out, (∀ name ∈ addedToRequest, ¬ req.headers.Nominates name) →
      requestHeaders target req conn = .ok out → RequestPreserved target req conn out) ∧
    ∀ orig, ∃ out, responseHeaders orig = .ok out ∧ ResponsePreserved orig out :=
  ⟨fun _ _ _ _ => request_preserved, response_preserved⟩

theorem forwarded_preserved_secret :
    (∃ out, requestHeaders "db" (requestWith (secretFields secretAlone)) localConn = .ok out ∧
      RequestPreserved "db" (requestWith (secretFields secretAlone)) localConn out) ∧
    ∃ out, responseHeaders (responseWith .new) = .ok out ∧
      ResponsePreserved (responseWith .new) out := by
  have foreign : ∀ name ∈ addedToRequest, ¬ (secretFields secretAlone).Nominates name := by
    decide +kernel
  obtain ⟨out, sent⟩ := requestHeaders_with (secretFields secretAlone)
  exact ⟨⟨out, sent, forwarded_preserved.1 _ _ _ _ foreign sent⟩, forwarded_preserved.2 _⟩

end Protospy
