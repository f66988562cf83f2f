import Protospy.Proxy.Forwarding

/-!
# The target of a forwarded request

The configured target is normalized once. Every request goes to its scheme and
authority, whatever form the target of the request itself has.
-/

namespace Protospy

namespace Uri

/-- `Uri::authority`. -/
def authority? (u : Uri) : Option String := if u.authority = "" then none else some u.authority

end Uri

/-- The forms in which a client can name the target of its request. -/
inductive RequestTarget where
  | origin (pathAndQuery : String) (rooted : pathAndQuery.toList.head? = some '/')
  | absolute (scheme name pathAndQuery : String) (named : name ≠ "")
  | authority (name : String) (named : name ≠ "")
  | asterisk

namespace RequestTarget

def uri : RequestTarget → Uri
  | .origin pathAndQuery _ => ⟨none, "", pathAndQuery⟩
  | .absolute scheme name pathAndQuery _ => ⟨some scheme, name, pathAndQuery⟩
  | .authority name _ => ⟨none, name, ""⟩
  | .asterisk => ⟨none, "", "*"⟩

/-- The form of `CONNECT`, which has no path. -/
def IsAuthority (form : RequestTarget) : Prop := ∃ name named, form = .authority name named

theorem hasPath_uri {form : RequestTarget} (other : ¬ form.IsAuthority) :
    form.uri.hasPath = true ∧ form.uri.pathAndQuery? = some form.uri.pathAndQuery := by
  cases form with
  | origin pathAndQuery rooted =>
    have nonempty : pathAndQuery ≠ "" := by
      rintro rfl
      cases rooted
    simp [uri, Uri.hasPath, Uri.pathAndQuery?, nonempty]
  | absolute scheme name pathAndQuery named =>
    simp [uri, Uri.hasPath, Uri.pathAndQuery?]
  | authority name named => exact absurd ⟨name, named, rfl⟩ other
  | asterisk => exact ⟨rfl, rfl⟩

end RequestTarget

/-- What normalization keeps and what it adds. -/
theorem normalizeUri_spec {spec uri : Uri} (normalized : normalizeUri spec = .ok uri) :
    uri.scheme = some (spec.scheme.getD "http") ∧ uri.authority? = spec.authority? ∧
      uri.authority?.isSome = true := by
  by_cases noAuthority : spec.authority = ""
  · simp [normalizeUri, uriFromParts, Uri.fromParts, Uri.intoParts, noAuthority] at normalized
  · simp only [normalizeUri, uriFromParts, Uri.fromParts, Uri.intoParts, noAuthority, if_false,
      Option.isSome_some, and_self, if_true, Option.getD_some, Except.ok.injEq] at normalized
    subst normalized
    simp [Uri.authority?, noAuthority]

namespace Service

/-- Only the form without a path is refused; of the others the path and the query are
taken and nothing else. -/
theorem mapUri_spec (service : Service) (form : RequestTarget) :
    (form.IsAuthority → service.mapUri form.uri = .error .invalidUriParts) ∧
    (¬ form.IsAuthority → service.mapUri form.uri =
      .ok { service.target.uri with pathAndQuery := form.uri.pathAndQuery }) := by
  obtain ⟨scheme, hasScheme⟩ := Option.isSome_iff_exists.mp service.target.hasScheme
  have named := service.target.hasAuthority
  constructor
  · rintro ⟨name, nonempty, rfl⟩
    simp [mapUri, uriFromParts, Uri.fromParts, Uri.intoParts, hasScheme, named,
      RequestTarget.uri, Uri.pathAndQuery?, nonempty]
  · intro other
    simp [mapUri, uriFromParts, Uri.fromParts, Uri.intoParts, hasScheme, named,
      (RequestTarget.hasPath_uri other).2]

theorem mapUri_path {service : Service} {form : RequestTarget} (other : ¬ form.IsAuthority) :
    ({ service.target.uri with pathAndQuery := form.uri.pathAndQuery } : Uri).path =
      form.uri.path := by
  have mapped : ({ service.target.uri with pathAndQuery := form.uri.pathAndQuery } : Uri).hasPath =
      true := by
    simp [Uri.hasPath, service.target.hasScheme]
  rw [Uri.path, Uri.path, mapped, (RequestTarget.hasPath_uri other).1]

end Service

namespace Exchange

variable {β γ : Type}

theorem transformRequestParts_uri {x : Exchange} {incoming request : Request β}
    (transformed : x.transformRequestParts incoming = .ok request) :
    x.service.mapUri incoming.parts.uri = .ok request.parts.uri := by
  obtain ⟨targetUri, mapped, rest⟩ := bind_eq_ok.mp transformed
  obtain ⟨headers, -, built⟩ := bind_eq_ok.mp rest
  obtain rfl := Except.ok.inj built
  exact mapped

variable [HttpBody β] [HttpBody γ]

/-- The request that is sent is the one that was transformed. -/
theorem sent_uri {x : Exchange} {env : ExchangeEnv γ} {incoming : Request β}
    {parts : RequestParts} {body : BodyTrace}
    (sent : (x.process env incoming).sent = some (parts, body)) :
    x.service.mapUri incoming.parts.uri = .ok parts.uri := by
  rw [process] at sent
  rcases transformed : x.transformRequestParts incoming with err | request
  · rw [transformed] at sent
    cases sent
  · have same : request.parts = parts := by
      rw [transformed] at sent
      dsimp only at sent
      split at sent
      · cases sent
      · split at sent <;> exact congrArg Prod.fst (Option.some.inj sent)
    rw [transformRequestParts_uri transformed, same]

theorem process_unmapped {x : Exchange} {incoming : Request β}
    (unmapped : x.service.mapUri incoming.parts.uri = .error .invalidUriParts)
    (env : ExchangeEnv γ) :
    (x.process env incoming).sent = none ∧ ∃ headers, (x.process env incoming).response =
      .ok ⟨⟨.badGateway, .http11, headers⟩, emptyResponse⟩ := by
  have failed : x.transformRequestParts incoming = .error .invalidUriParts := by
    rw [transformRequestParts, unmapped]
    rfl
  obtain ⟨headers, own, -⟩ := errorHttpResponse_spec .badGateway .internalError
  rw [process, failed]
  exact ⟨rfl, headers, own⟩

end Exchange

/-- Every request goes to the configured target or is answered by the proxy. -/
theorem forward_target_fixed {β γ : Type} [HttpBody β] [HttpBody γ] (spec uri : Uri)
    (normalized : normalizeUri spec = .ok uri) :
    (uri.scheme = some (spec.scheme.getD "http") ∧ uri.authority? = spec.authority? ∧
      uri.authority?.isSome = true) ∧
    (∃ target : Target, target.uri = uri) ∧
    ∀ (x : Exchange) (form : RequestTarget), x.service.target.uri = uri →
      (x.service.mapUri form.uri = .error .invalidUriParts ∨
        ∃ mapped, x.service.mapUri form.uri = .ok mapped ∧ mapped.scheme = uri.scheme ∧
          mapped.authority = uri.authority ∧ mapped.path = form.uri.path ∧
          mapped.query = form.uri.query) ∧
      ∀ (env : ExchangeEnv γ) (incoming : Request β), incoming.parts.uri = form.uri →
        (x.service.mapUri form.uri = .error .invalidUriParts →
          (x.process env incoming).sent = none ∧ ∃ headers,
            (x.process env incoming).response =
              .ok ⟨⟨.badGateway, .http11, headers⟩, emptyResponse⟩) ∧
        ∀ parts body, (x.process env incoming).sent = some (parts, body) →
          parts.uri.scheme = uri.scheme ∧ parts.uri.authority = uri.authority ∧
          parts.uri.path = form.uri.path ∧ parts.uri.query = form.uri.query := by
  have spec' := normalizeUri_spec normalized
  have target := normalizeUri_target normalized
  refine ⟨spec', ⟨⟨uri, target.1, target.2⟩, rfl⟩, ?_⟩
  rintro x form rfl
  obtain ⟨refused, mapped⟩ := x.service.mapUri_spec form
  have fixed : ∀ mapped', x.service.mapUri form.uri = .ok mapped' →
      mapped'.scheme = x.service.target.uri.scheme ∧
      mapped'.authority = x.service.target.uri.authority ∧ mapped'.path = form.uri.path ∧
      mapped'.query = form.uri.query := by
    intro mapped' result
    by_cases connect : form.IsAuthority
    · rw [refused connect] at result
      cases result
    · rw [mapped connect] at result
      obtain rfl := Except.ok.inj result
      exact ⟨rfl, rfl, Service.mapUri_path connect, rfl⟩
  refine ⟨?_, fun env incoming same => ⟨fun unmapped => ?_, fun parts body sent => ?_⟩⟩
  · by_cases connect : form.IsAuthority
    · exact .inl (refused connect)
    · exact .inr ⟨_, mapped connect, fixed _ (mapped connect)⟩
  · exact Exchange.process_unmapped (same ▸ unmapped) env
  · exact fixed _ (same ▸ Exchange.sent_uri sent)

/-- The target `db:80`, before and after it is normalized. -/
def plainTarget : Uri × Uri := (⟨none, "db:80", ""⟩, ⟨some "http", "db:80", "/"⟩)

theorem forward_target_fixed_plain :
    (plainTarget.2.scheme = some (plainTarget.1.scheme.getD "http") ∧
      plainTarget.2.authority? = plainTarget.1.authority? ∧
      plainTarget.2.authority?.isSome = true) ∧
    (∃ target : Target, target.uri = plainTarget.2) ∧
    ∀ (x : Exchange) (form : RequestTarget), x.service.target.uri = plainTarget.2 →
      (x.service.mapUri form.uri = .error .invalidUriParts ∨
        ∃ mapped, x.service.mapUri form.uri = .ok mapped ∧
          mapped.scheme = plainTarget.2.scheme ∧ mapped.authority = plainTarget.2.authority ∧
          mapped.path = form.uri.path ∧ mapped.query = form.uri.query) ∧
      ∀ (env : ExchangeEnv (PollStream.Script BodyStreamItem))
        (incoming : Request (PollStream.Script BodyStreamItem)),
        incoming.parts.uri = form.uri →
        (x.service.mapUri form.uri = .error .invalidUriParts →
          (x.process env incoming).sent = none ∧ ∃ headers,
            (x.process env incoming).response =
              .ok ⟨⟨.badGateway, .http11, headers⟩, emptyResponse⟩) ∧
        ∀ parts body, (x.process env incoming).sent = some (parts, body) →
          parts.uri.scheme = plainTarget.2.scheme ∧
          parts.uri.authority = plainTarget.2.authority ∧
          parts.uri.path = form.uri.path ∧ parts.uri.query = form.uri.query :=
  forward_target_fixed plainTarget.1 plainTarget.2 (by rfl)

end Protospy
