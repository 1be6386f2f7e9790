import Rivloom.Collaboration.Invitation
import Rivloom.Collaboration.Reconcile

/-!
# Requests and responses

What a node and the host of a Brain say to each other over an established connection
(`wire.rs`): a request carries an id of its own and one operation, and a response carries
the id of the request it answers and one reply. Both are JSON of bounded length, and both
are read by the strict readers of `Rivloom.Codec`.

A writer reads its own bytes back before it lets them go. A response that holds a page is
checked as a page at both ends (`Rivloom.Collaboration.Response.decode`), so that what
one side sends the other side will not refuse on the way.
-/

namespace Rivloom.Collaboration

/-- A secret in a frame: the digits, checked when they are read. -/
def SecretToken.codec : Codec SecretToken :=
  Codec.string.refine (fun value => (parse value).toOption) text
    (fun token => by simp [parse, token.hex, Except.toOption])
    (fun value token h => by
      unfold parse at h
      split at h
      · rw [← Option.some.inj h]
      · cases h)

/-! ### Errors -/

/-- What a peer is told of a failure. -/
inductive WireError where
  | rejected | conflict | busy | unavailable | invalid
  deriving DecidableEq

namespace WireError

/-- The word of an error. -/
def code : WireError → String
  | .rejected => "rejected" | .conflict => "conflict" | .busy => "busy"
  | .unavailable => "unavailable" | .invalid => "invalid"

/-- An error as a variant without data. -/
def variant (e : WireError) : Codec.Variant WireError := ⟨e.code, .ignored, fun _ => e⟩

def variants : Codec.Variants WireError where
  all := [variant .rejected, variant .conflict, variant .busy, variant .unavailable,
    variant .invalid]
  view e := ⟨e.variant, ()⟩
  inj_view _ := rfl
  view_inj v hv b := by fin_cases hv <;> rfl
  find_view e := by cases e <;> rfl

def codec : Codec WireError :=
  .internal "code" variants fun _ => ⟨[], rfl, fun _ h => by cases h⟩

end WireError

/-! ### Requests -/

/-- What a peer asks for. -/
inductive Operation where
  | authenticate (binding : CredentialBinding) (secret : SecretToken)
  | join (brainId invitationId : String) (secret : SecretToken)
      (identityId deviceId displayName : String)
  | sync (request : ReconcileRequest)
  | submit (message : Message)
  | pulse
  | invite
  | cancelInvite (invitationId : String)
  | revoke (memberId : String) (revision : ℕ)
  deriving DecidableEq

namespace Operation

/-- The data of a variant with named fields, which is read from an object only. -/
def fields {τ : Type} (f : Codec.Fields τ) (h : f.names.Nodup) : Codec τ :=
  (Codec.struct f (Equiv.refl _) h).objectOnly fun _ => ⟨_, rfl⟩

def authenticateVariant : Codec.Variant Operation :=
  ⟨"authenticate",
    fields (.cons "binding" CredentialBinding.codec <| .cons "secret" SecretToken.codec .nil)
      (by decide),
    fun (a, b, _) => .authenticate a b⟩

def joinVariant : Codec.Variant Operation :=
  ⟨"join",
    fields (.cons "brainId" .string <| .cons "invitationId" .string <|
      .cons "secret" SecretToken.codec <| .cons "identityId" .string <|
      .cons "deviceId" .string <| .cons "displayName" .string .nil) (by decide),
    fun (a, b, c, d, e, f, _) => .join a b c d e f⟩

def syncVariant : Codec.Variant Operation := ⟨"sync", ReconcileRequest.codec, .sync⟩

def submitVariant : Codec.Variant Operation := ⟨"submit", Message.codec, .submit⟩

def pulseVariant : Codec.Variant Operation :=
  ⟨"pulse", fields .nil Codec.Fields.nodup_names_nil, fun _ => .pulse⟩

def inviteVariant : Codec.Variant Operation :=
  ⟨"invite", fields .nil Codec.Fields.nodup_names_nil, fun _ => .invite⟩

def cancelInviteVariant : Codec.Variant Operation :=
  ⟨"cancelInvite", fields (.cons "invitationId" .string .nil) (by decide),
    fun (a, _) => .cancelInvite a⟩

def revokeVariant : Codec.Variant Operation :=
  ⟨"revoke", fields (.cons "memberId" .string <| .cons "revision" Protocol.u64 .nil) (by decide),
    fun (a, b, _) => .revoke a b⟩

def variants : Codec.Variants Operation where
  all := [authenticateVariant, joinVariant, syncVariant, submitVariant, pulseVariant,
    inviteVariant, cancelInviteVariant, revokeVariant]
  view
    | .authenticate a b => ⟨authenticateVariant, (a, b, ())⟩
    | .join a b c d e f => ⟨joinVariant, (a, b, c, d, e, f, ())⟩
    | .sync a => ⟨syncVariant, a⟩
    | .submit a => ⟨submitVariant, a⟩
    | .pulse => ⟨pulseVariant, ()⟩
    | .invite => ⟨inviteVariant, ()⟩
    | .cancelInvite a => ⟨cancelInviteVariant, (a, ())⟩
    | .revoke a b => ⟨revokeVariant, (a, b, ())⟩
  inj_view a := by cases a <;> rfl
  view_inj v hv b := by fin_cases hv <;> rfl
  find_view a := by cases a <;> rfl

def codec : Codec Operation := .tagged "type" "data" Protocol.type_ne_data variants

end Operation

/-- **A request.** -/
structure Request where
  version : ℕ
  id : String
  operation : Operation
  deriving DecidableEq

namespace Request

variable {bytes : ByteArray} {request : Request}

def codec : Codec Request :=
  .struct (.cons "version" (.uint 32) <| .cons "id" .string <|
      .cons "operation" Operation.codec .nil)
    ⟨fun v => (v.version, v.id, v.operation, ()), fun (a, b, c, _) => ⟨a, b, c⟩, fun _ => rfl,
      fun _ => rfl⟩ (by decide)

/-- Read a request. -/
def decode (bytes : ByteArray) : Except WireError Request :=
  if bytes.size > maxControlBytes then .error .invalid
  else
    match codec.ofBytes bytes with
    | none => .error .invalid
    | some request =>
      if request.version != 1 || !Protocol.id request.id then .error .invalid
      else .ok request

/-- Write a request, and read it back. -/
def encode (request : Request) : Except WireError ByteArray := do
  let bytes := codec.toBytes request
  let _ ← decode bytes
  return bytes

theorem decode_eq_ok :
    decode bytes = .ok request ↔ codec.ofBytes bytes = some request ∧
      bytes.size ≤ maxControlBytes ∧ request.version = 1 ∧ Protocol.id request.id = true := by
  rw [decode]
  split_ifs with hsize
  · exact iff_of_false (fun h => by cases h) fun h => Nat.not_lt.mpr h.2.1 hsize
  · cases codec.ofBytes bytes with
    | none => exact iff_of_false (fun h => by cases h) fun h => by cases h.1
    | some other =>
      dsimp only
      split_ifs with hbad
      · refine iff_of_false (fun h => by cases h) ?_
        rintro ⟨⟨⟩, -, hversion, hid⟩
        simp [hversion, hid] at hbad
      · constructor
        · rintro ⟨⟩
          simp only [bne_iff_ne, Bool.or_eq_true, Bool.not_eq_true', not_or, not_not,
            Bool.not_eq_false] at hbad
          exact ⟨rfl, Nat.not_lt.mp hsize, hbad⟩
        · rintro ⟨⟨⟩, -⟩
          rfl

/-- What is written of a request are its bytes, and they are read as this request. -/
theorem encode_eq_ok (hok : codec.ok request) :
    request.encode = .ok bytes ↔
      codec.toBytes request = bytes ∧ decode bytes = .ok request := by
  rw [encode]
  constructor
  · intro h
    obtain ⟨other, hother, hbytes⟩ := Except.bind_eq_ok.mp h
    cases hbytes
    -- the request that was read back is the one that was written
    have hsame : other = request :=
      Option.some.inj ((decode_eq_ok.mp hother).1.symm.trans (codec.ofBytes_toBytes hok))
    rw [hsame] at hother
    exact ⟨rfl, hother⟩
  · rintro ⟨rfl, h⟩
    exact Except.bind_eq_ok.mpr ⟨request, h, rfl⟩

/-- **Requests cross the wire.** The numbers of a request that is read are those of its types, and
it is read from bytes in which no record has a field too many. A request with such numbers is
written exactly if its version and its id are right and its bytes are not too many, and what is
written is read as the same request – so a request that was read can be passed on if it is short
enough, and two requests are never written alike. -/
theorem requests_cross_the_wire :
    (∀ bytes request, decode bytes = .ok request → codec.ok request) ∧
    (∀ bytes json, Json.ofBytes bytes = some json → codec.flaw json →
      decode bytes = .error .invalid) ∧
    (∀ request, codec.ok request →
      ((∃ bytes, request.encode = .ok bytes) ↔ (codec.toBytes request).size ≤ maxControlBytes ∧
        request.version = 1 ∧ Protocol.id request.id = true) ∧
      ∀ bytes, request.encode = .ok bytes → decode bytes = .ok request) := by
  refine ⟨fun bytes request h => codec.ok_of_ofBytes (decode_eq_ok.mp h).1, ?_, ?_⟩
  · intro bytes json hjson hflaw
    have hnone : codec.ofBytes bytes = none := by
      rw [Codec.ofBytes, hjson, Option.bind_some, codec.dec_flaw json hflaw]
    rw [decode, hnone]
    split_ifs <;> rfl
  · intro request hok
    refine ⟨?_, fun bytes h => ((encode_eq_ok hok).mp h).2⟩
    constructor
    · rintro ⟨bytes, h⟩
      obtain ⟨rfl, h⟩ := (encode_eq_ok hok).mp h
      exact (decode_eq_ok.mp h).2
    · intro h
      have hdecode : decode (codec.toBytes request) = .ok request :=
        decode_eq_ok.mpr ⟨codec.ofBytes_toBytes hok, h⟩
      exact ⟨codec.toBytes request, (encode_eq_ok hok).mpr ⟨rfl, hdecode⟩⟩

end Request

/-! ### Responses -/

/-- What a peer is answered. -/
inductive Reply where
  | authenticated
  | joined (binding : CredentialBinding) (expiresAt : ℤ) (secret : SecretToken)
  | page (page : Page)
  | applied (key : String) (revision : ℕ)
  | pulsed (revision : ℕ)
  | invited (brainId invitationId : String) (expiresAt : ℤ) (secret : SecretToken)
  | administered (revision : ℕ)
  | error (e : WireError)
  deriving DecidableEq

namespace Reply

open Operation (fields)

def authenticatedVariant : Codec.Variant Reply :=
  ⟨"authenticated", fields .nil Codec.Fields.nodup_names_nil, fun _ => .authenticated⟩

def joinedVariant : Codec.Variant Reply :=
  ⟨"joined",
    fields (.cons "binding" CredentialBinding.codec <| .cons "expiresAt" Protocol.i64 <|
      .cons "secret" SecretToken.codec .nil) (by decide),
    fun (a, b, c, _) => .joined a b c⟩

def pageVariant : Codec.Variant Reply := ⟨"page", Page.codec, .page⟩

def appliedVariant : Codec.Variant Reply :=
  ⟨"applied", fields (.cons "key" .string <| .cons "revision" Protocol.u64 .nil) (by decide),
    fun (a, b, _) => .applied a b⟩

def pulsedVariant : Codec.Variant Reply :=
  ⟨"pulsed", fields (.cons "revision" Protocol.u64 .nil) (by decide), fun (a, _) => .pulsed a⟩

def invitedVariant : Codec.Variant Reply :=
  ⟨"invited",
    fields (.cons "brainId" .string <| .cons "invitationId" .string <|
      .cons "expiresAt" Protocol.i64 <| .cons "secret" SecretToken.codec .nil) (by decide),
    fun (a, b, c, d, _) => .invited a b c d⟩

def administeredVariant : Codec.Variant Reply :=
  ⟨"administered", fields (.cons "revision" Protocol.u64 .nil) (by decide),
    fun (a, _) => .administered a⟩

def errorVariant : Codec.Variant Reply := ⟨"error", WireError.codec, .error⟩

def variants : Codec.Variants Reply where
  all := [authenticatedVariant, joinedVariant, pageVariant, appliedVariant, pulsedVariant,
    invitedVariant, administeredVariant, errorVariant]
  view
    | .authenticated => ⟨authenticatedVariant, ()⟩
    | .joined a b c => ⟨joinedVariant, (a, b, c, ())⟩
    | .page a => ⟨pageVariant, a⟩
    | .applied a b => ⟨appliedVariant, (a, b, ())⟩
    | .pulsed a => ⟨pulsedVariant, (a, ())⟩
    | .invited a b c d => ⟨invitedVariant, (a, b, c, d, ())⟩
    | .administered a => ⟨administeredVariant, (a, ())⟩
    | .error a => ⟨errorVariant, a⟩
  inj_view a := by cases a <;> rfl
  view_inj v hv b := by fin_cases hv <;> rfl
  find_view a := by cases a <;> rfl

def codec : Codec Reply := .tagged "type" "data" Protocol.type_ne_data variants

/-- A page inside a reply passes the check on pages. -/
def pageValid : Reply → Bool
  | .page p => p.validate.isOk
  | _ => true

end Reply

/-- **A response.** -/
structure Response where
  version : ℕ
  id : String
  result : Reply
  deriving DecidableEq

namespace Response

def codec : Codec Response :=
  .struct (.cons "version" (.uint 32) <| .cons "id" .string <| .cons "result" Reply.codec .nil)
    ⟨fun v => (v.version, v.id, v.result, ()), fun (a, b, c, _) => ⟨a, b, c⟩, fun _ => rfl,
      fun _ => rfl⟩ (by decide)

/-- Read the response to a request. -/
def decode (bytes : ByteArray) (requestId : String) : Except WireError Response :=
  if bytes.size > maxControlBytes then .error .invalid
  else
    match codec.ofBytes bytes with
    | none => .error .invalid
    | some response =>
      if response.version != 1 || response.id != requestId || !Protocol.id response.id then
        .error .invalid
      else if !response.result.pageValid then .error .invalid
      else .ok response

/-- Write a response, and read it back. -/
def encode (response : Response) : Except WireError ByteArray := do
  let bytes := codec.toBytes response
  let _ ← decode bytes response.id
  return bytes

/-- **A response that fits is written, and read as it was.** -/
theorem encode_decode {response : Response} (hok : codec.ok response)
    (hsize : (codec.toBytes response).size ≤ maxControlBytes) (hversion : response.version = 1)
    (hid : Protocol.id response.id = true) (hpage : response.result.pageValid = true) :
    ∃ bytes, response.encode = .ok bytes ∧ decode bytes response.id = .ok response := by
  have hdecode : decode (codec.toBytes response) response.id = .ok response := by
    rw [decode, if_neg (Nat.not_lt.mpr hsize), codec.ofBytes_toBytes hok]
    simp [hversion, hid, hpage]
  refine ⟨codec.toBytes response, ?_, hdecode⟩
  rw [encode, hdecode]
  rfl

end Response

end Rivloom.Collaboration
