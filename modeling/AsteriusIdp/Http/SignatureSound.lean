import AsteriusIdp.Http.Signatures

/-!
# What a verified HTTP message says

The base of a message determines it: the lines are told apart by their ends, the parameters by the
parser, and the body by its digest (`toBeSigned_inj`).  So a message that verifies with a signature
that is not forged is one that the holder of the key signed, with everything that the verifier
returns (`signed_of_verify`), and a message that was signed verifies while it is current
(`verify_of_toBeSigned`).

Its lifetime is at most `maxLifetime`, but need not be positive: the checks refuse a lifetime of
zero and not one below it.  `accepted_lifetime` says for which creation times that shows.
-/

namespace AsteriusIdp.Http

open Fallible Framing Keys

variable {W : Primitives}

/-! ### The digest -/

theorem newline_not_mem_digest (body : Bytes) : '\n' ∉ (digest W body).toList := by
  intro h
  have hlit : '\n' ∉ "sha-256=:".toList ++ '=' :: Base64.alphabet ++ ":".toList := by decide
  refine hlit ?_
  simp only [digest, String.toList_append, List.mem_append] at h ⊢
  rcases h with h | h | h
  · exact .inl (.inl h)
  · exact .inl (.inr (Base64.mem_encode h))
  · exact .inr h

variable {body : Bytes} {components : List (String × String)} {nonce keyid base : String}
  {created expires now : ℤ} {kind : Kind} {fields : SignedFields} {key : VerifyingKey}
  {v : VerifiedMessage} {m : Message}

theorem sha256_eq_of_digest {body' : Bytes} (h : digest W body = digest W body') :
    W.sha256 body = W.sha256 body' := by
  rw [digest, digest, String.append_right_inj, String.append_left_inj] at h
  exact Base64.encode_injective h

theorem utf8ByteSize_digest (body : Bytes) : (digest W body).utf8ByteSize = 54 := by
  rw [digest, String.utf8ByteSize_append, String.utf8ByteSize_append, Base64.utf8ByteSize_encode,
    W.length_sha256]
  rfl

/-! ### The parameters -/

theorem parseInput_input {components : String} (hcre : Decimal.Fits 64 created)
    (hexp : Decimal.Fits 64 expires) (hnon : '"' ∉ nonce.toList) :
    parseInput (input components created expires nonce keyid) components =
      .ok ⟨created, expires, nonce, keyid⟩ := by
  have hsem : ∀ n : ℤ, ';' ∉ n.repr.toList := by
    intro _ h
    rcases Decimal.mem_repr h with h | h <;> exact absurd h (by decide)
  have hstr : Text.stripStart ("sig1=" ++ (components ++ ";created="))
      (input components created expires nonce keyid) =
      some (created.repr ++ (";expires=" ++ (expires.repr ++ (";nonce=\"" ++ (nonce ++
        ("\";keyid=\"" ++ (keyid ++ "\";alg=\"ed25519\""))))))) := by
    rw [← Text.stripStart_append ("sig1=" ++ (components ++ ";created="))]
    simp [input, String.append_assoc]
  have hspl : ∀ tail, Text.splitOnce ";expires=" (created.repr ++ (";expires=" ++ tail)) =
      some (created.repr, tail) := Text.splitOnce_append rfl (hsem created)
  have hspl' : ∀ tail, Text.splitOnce ";nonce=\"" (expires.repr ++ (";nonce=\"" ++ tail)) =
      some (expires.repr, tail) := Text.splitOnce_append rfl (hsem expires)
  have hspl'' : ∀ tail, Text.splitOnce "\";keyid=\"" (nonce ++ ("\";keyid=\"" ++ tail)) =
      some (nonce, tail) := Text.splitOnce_append rfl hnon
  simp only [parseInput, bind_ok, okOr_ok, refuseIf_ok, Prod.exists]
  exact ⟨_, hstr, _, _, hspl _, _, _, hspl' _, _, _, hspl'' _, _,
    Text.stripEnd_append .., _, Decimal.parse_repr hcre, _, Decimal.parse_repr hexp, (),
    not_not.2 rfl, rfl⟩

theorem parseInput_ok {value components : String} {p : ParsedInput}
    (h : parseInput value components = .ok p) :
    value = input components p.created p.expires p.nonce p.keyid ∧ Decimal.Fits 64 p.created ∧
    Decimal.Fits 64 p.expires := by
  simp only [parseInput, bind_ok, okOr_ok, refuseIf_ok, pure_ok, Prod.exists] at h
  obtain ⟨_, _, _, _, _, _, _, _, _, _, _, _, _, _, hcre, _, hexp, _, hval, rfl⟩ := h
  exact ⟨(not_not.1 hval).symm, Decimal.fits_of_parse hcre, Decimal.fits_of_parse hexp⟩

/-! ### The lines -/

/-- The line of a component. -/
def line (part : String × String) : List Char := ("\"" ++ part.1 ++ "\": " ++ part.2).toList

/-- The lines of a base. -/
def lines (components : List (String × String)) (contentDigest params : String) :
    List (List Char) :=
  components.map line ++
    [("\"content-digest\": " ++ contentDigest).toList, ("\"@signature-params\": " ++ params).toList]

theorem toList_foldlM {start : String} (h : components.foldlM component start = .ok base) :
    base.toList = start.toList ++ components.flatMap fun part => line part ++ ['\n'] := by
  induction components generalizing start with
  | nil =>
    rw [List.foldlM_nil, pure_ok] at h
    simp [h]
  | cons part components ih =>
    simp only [List.foldlM_cons, component, bind_ok, pure_ok] at h
    obtain ⟨_, ⟨-, -, rfl⟩, hrs⟩ := h
    rw [ih hrs]
    simp [line]

theorem foldlM_component (start : String)
    (h : ∀ part ∈ components, '\r' ∉ part.2.toList ∧ '\n' ∉ part.2.toList) :
    ∃ base, components.foldlM component start = .ok base := by
  induction components generalizing start with
  | nil => exact ⟨start, rfl⟩
  | cons part components ih =>
    obtain ⟨base, hbs⟩ := ih (start ++ ("\"" ++ part.1 ++ "\": " ++ part.2 ++ "\n"))
      fun p hp => h p (List.mem_cons_of_mem _ hp)
    refine ⟨base, ?_⟩
    simp only [List.foldlM_cons, component, bind_ok, refuseIf_ok]
    exact ⟨_, ⟨(), not_or.2 (h part List.mem_cons_self), rfl⟩, hbs⟩

theorem exists_signatureBase (h : ∀ part ∈ components, '\r' ∉ part.2.toList ∧ '\n' ∉ part.2.toList)
    (contentDigest params : String) :
    ∃ base, signatureBase components contentDigest ("sig1=" ++ params) = .ok base := by
  obtain ⟨front, hfr⟩ := foldlM_component "" h
  refine ⟨front ++ ("\"content-digest\": " ++ contentDigest ++ "\n") ++
    ("\"@signature-params\": " ++ params), ?_⟩
  simp only [signatureBase, bind_ok, pure_ok, Text.stripStart_append]
  exact ⟨front, hfr, params, rfl, rfl⟩

theorem newline_not_mem_of_foldlM {start : String}
    (h : components.foldlM component start = .ok base) :
    ∀ part ∈ components, '\n' ∉ part.2.toList := by
  induction components generalizing start with
  | nil => nofun
  | cons part components ih =>
    simp only [List.foldlM_cons, component, bind_ok, refuseIf_ok] at h
    obtain ⟨_, ⟨-, hpa, -⟩, hrs⟩ := h
    exact List.forall_mem_cons.2 ⟨(not_or.1 hpa).2, ih hrs⟩

theorem intercalate_lines (components : List (String × String)) (contentDigest params : String) :
    ['\n'].intercalate (lines components contentDigest params) =
      (components.flatMap fun part => line part ++ ['\n']) ++
        ("\"content-digest\": " ++ contentDigest ++ "\n").toList ++
        ("\"@signature-params\": " ++ params).toList := by
  induction components with
  | nil => simp [lines]
  | cons part components ih =>
    have hcn : ['\n'].intercalate (lines (part :: components) contentDigest params) =
        line part ++ ['\n'] ++ ['\n'].intercalate (lines components contentDigest params) := by
      cases components <;> simp [lines]
    rw [hcn, ih]
    simp

/-- A base is its lines, none of them with a line end of its own. -/
theorem signatureBase_ok {contentDigest params : String}
    (h : signatureBase components contentDigest ("sig1=" ++ params) = .ok base) :
    base.toList = ['\n'].intercalate (lines components contentDigest params) ∧
    ∀ part ∈ components, '\n' ∉ part.2.toList := by
  simp only [signatureBase, bind_ok, okOr_ok, pure_ok, Text.stripStart_append,
    Option.some.injEq] at h
  obtain ⟨_, hfr, _, rfl, rfl⟩ := h
  refine ⟨?_, newline_not_mem_of_foldlM hfr⟩
  rw [intercalate_lines, String.toList_append, String.toList_append, toList_foldlM hfr]
  rfl

/-! ### The base determines the message -/

theorem validateCommon_ok {u : Unit} (h : validateCommon body keyid nonce created expires = .ok u) :
    body.length ≤ maxBody ∧ expires - created ≠ 0 ∧ expires - created ≤ maxLifetime ∧
    keyid.utf8ByteSize ≤ 128 ∧ keyid.toList.all isKeyidChar = true ∧
    nonce.utf8ByteSize ≤ 128 ∧ nonce.toList.all isNonceChar = true := by
  simp only [validateCommon, bind_ok, refuseIf_ok, not_or, not_not, not_lt] at h
  obtain ⟨-, ⟨hbo, -, hz, hmax⟩, -, hkeyid, hkey, hnon, hno⟩ := h
  exact ⟨hbo, hz, hmax, hkeyid, hkey, hnon.2, hno⟩

namespace Message

/-- The parameters that are signed. -/
def params (m : Message) : String :=
  m.kind.componentList ++ (";created=" ++ (m.created.repr ++ (";expires=" ++ (m.expires.repr ++
    (";nonce=\"" ++ (m.nonce ++ ("\";keyid=\"" ++ (m.keyid ++ "\";alg=\"ed25519\""))))))))

theorem input_eq (m : Message) : m.input = "sig1=" ++ m.params := rfl

variable {m : Message} {base : String}

theorem toBeSigned_ok :
    m.toBeSigned W = .ok base ↔ m.kind.validate W = .ok () ∧
    validateCommon m.body m.keyid m.nonce m.created m.expires = .ok () ∧
    signatureBase m.kind.components (digest W m.body) m.input = .ok base := by
  simp [toBeSigned, Unique.exists_iff]

section

variable (h : m.toBeSigned W = .ok base)
include h

theorem quote_not_mem_nonce : '"' ∉ m.nonce.toList := by
  obtain ⟨-, hcom, -⟩ := toBeSigned_ok.1 h
  obtain ⟨-, -, -, -, -, -, hnon⟩ := validateCommon_ok hcom
  exact Text.not_mem_of_all hnon (by decide)

theorem parseInput_signed : parseInput m.input m.kind.componentList = .ok m.parsed :=
  parseInput_input m.fits_created m.fits_expires (quote_not_mem_nonce h)

theorem newline_not_mem_params : '\n' ∉ m.params.toList := by
  obtain ⟨-, hcom, -⟩ := toBeSigned_ok.1 h
  obtain ⟨-, -, -, -, hkey, -, hnon⟩ := validateCommon_ok hcom
  have hkey' : '\n' ∉ m.keyid.toList := Text.not_mem_of_all hkey (by decide)
  have hnon' : '\n' ∉ m.nonce.toList := Text.not_mem_of_all hnon (by decide)
  have hnum : ∀ n : ℤ, '\n' ∉ n.repr.toList := by
    intro _ hn
    rcases Decimal.mem_repr hn with hn | hn <;> exact absurd hn (by decide)
  have hls : '\n' ∉ m.kind.componentList.toList := by
    cases m.kind with
    | request => exact (by decide : '\n' ∉ requestComponents.toList)
    | response => exact (by decide : '\n' ∉ responseComponents.toList)
  simp only [params, String.toList_append, List.mem_append, not_or]
  exact ⟨hls, by decide, hnum _, by decide, hnum _, by decide, hnon', by decide, hkey',
    by decide⟩

end

/-- The lines that are signed. -/
def baseLines (W : Primitives) (m : Message) : List (List Char) :=
  lines m.kind.components (digest W m.body) m.params

theorem toList_base (h : m.toBeSigned W = .ok base) :
    base.toList = ['\n'].intercalate (m.baseLines W) :=
  (signatureBase_ok (toBeSigned_ok.1 h).2.2).1

theorem newline_not_mem_baseLines (h : m.toBeSigned W = .ok base) :
    ∀ l ∈ m.baseLines W, '\n' ∉ l := by
  have hpar := (signatureBase_ok (toBeSigned_ok.1 h).2.2).2
  have hnm : ∀ part ∈ m.kind.components, '\n' ∉ part.1.toList := by
    cases m.kind <;> simp only [Kind.components, List.forall_mem_cons] <;> decide
  intro _ hl
  simp only [baseLines, lines, List.mem_append, List.mem_map, List.mem_cons, List.not_mem_nil,
    or_false] at hl
  rcases hl with ⟨part, hpa, rfl⟩ | rfl | rfl
  · simp [line, hnm part hpa, hpar part hpa]
  · simp [newline_not_mem_digest]
  · simp [newline_not_mem_params h]

theorem kind_eq_of_lines {k k' : Kind} (h : k.components.map line = k'.components.map line) :
    k = k' := by
  cases k with
  | request target =>
    cases k' with
    | request target' =>
      simp only [Kind.components, List.map_cons, List.map_nil, List.cons.injEq, line,
        String.toList_inj, String.append_right_inj, and_true] at h
      rw [show target = target' from RequestTarget.ext h.1 h.2]
    | response => exact absurd (congrArg List.length h) (by simp [Kind.components])
  | response =>
    cases k' with
    | request => exact absurd (congrArg List.length h) (by simp [Kind.components])
    | response =>
      simp only [Kind.components, List.map_cons, List.map_nil, List.cons.injEq, line,
        String.toList_inj, String.append_right_inj, and_true] at h
      rw [Decimal.repr_injective h]

/-- The base determines the message, up to a collision of the two bodies. -/
theorem toBeSigned_inj {m' : Message} (h : m.toBeSigned W = .ok base)
    (h' : m'.toBeSigned W = .ok base)
    (hsha : W.sha256 m.body = W.sha256 m'.body → m.body = m'.body) : m = m' := by
  have hlin : m.baseLines W = m'.baseLines W :=
    Text.intercalate_inj (by simp [baseLines, lines]) (by simp [baseLines, lines])
      (newline_not_mem_baseLines h) (newline_not_mem_baseLines h')
      ((toList_base h).symm.trans (toList_base h'))
  obtain ⟨hco, htl⟩ := List.append_inj' hlin rfl
  have hkd : m.kind = m'.kind := kind_eq_of_lines hco
  simp only [List.cons.injEq, String.toList_inj, String.append_right_inj, and_true] at htl
  have hbo : m.body = m'.body := hsha (sha256_eq_of_digest htl.1)
  have hinp : m.input = m'.input := by
    rw [input_eq, input_eq, htl.2]
  -- equal parameters are parsed alike
  have hprs : m.parsed = m'.parsed := by
    have hrd := parseInput_signed h
    rw [hinp, hkd, parseInput_signed h'] at hrd
    exact (Except.ok.inj hrd).symm
  cases m
  simp_all [parsed]

end Message

/-! ### What is accepted was signed -/

/-- The signature that the fields present was made for a message in `signed`, if it verifies over
the base that they spell out. -/
def MadeFor (W : Primitives) (kind : Kind) (fields : SignedFields) (key : VerifyingKey)
    (signed : Set Message) : Prop :=
  ∀ base signature,
    signatureBase kind.components fields.contentDigest fields.signatureInput = .ok base →
    readSignature fields.signature = some signature → key.verify (utf8 base) signature = true →
    ∃ m ∈ signed, m.toBeSigned W = .ok base

/-- No body of a message in `signed` collides with `body`. -/
def CollisionFree (W : Primitives) (body : Bytes) (signed : Set Message) : Prop :=
  ∀ m ∈ signed, W.sha256 m.body = W.sha256 body → m.body = body

/-- The instant lies in the second's window around the message. -/
def Message.Current (m : Message) (now : ℤ) : Prop :=
  m.created ≤ unixTimestamp now + 60 ∧ unixTimestamp now - maxLifetime ≤ m.created ∧
    unixTimestamp now ≤ m.expires

theorem Kind.verify_ok :
    kind.verify W body fields keyid key now = .ok v ↔ kind.validate W = .ok () ∧
    Http.verify W kind.components kind.componentList body fields keyid key now = .ok v := by
  cases kind <;> simp [Kind.verify, verifyRequest, verifyResponse, Unique.exists_iff,
    Kind.validate, Kind.components, Kind.componentList]

/-- An accepted message is the one that its fields spell out, under a signature of the key. -/
theorem message_of_verify (h : kind.verify W body fields keyid key now = .ok v) :
    ∃ m : Message, m.kind = kind ∧ m.body = body ∧ m.keyid = keyid ∧ m.Current now ∧
    parseInput fields.signatureInput kind.componentList = .ok m.parsed ∧ v = m.verified ∧
    ∃ base signature, m.toBeSigned W = .ok base ∧
    signatureBase kind.components fields.contentDigest fields.signatureInput = .ok base ∧
    readSignature fields.signature = some signature ∧ key.verify (utf8 base) signature = true := by
  obtain ⟨hkd, hver⟩ := Kind.verify_ok.1 h
  simp only [Http.verify, checkTime, bind_ok, refuseIf_ok, okOr_ok, pure_ok,
    Unique.exists_iff] at hver
  obtain ⟨-, -, hdig, p, hpar, hcom, hkey, htm, signature, hsig, base, hbs, hacc, at',
    hat, rfl⟩ := hver
  obtain ⟨hinp, hcre, hexp⟩ := parseInput_ok hpar
  have hcur : p.created ≤ unixTimestamp now + 60 ∧
      unixTimestamp now - maxLifetime ≤ p.created ∧ unixTimestamp now ≤ p.expires := by
    simpa using htm
  refine ⟨⟨kind, body, p.created, p.expires, p.nonce, p.keyid, hcre, hexp⟩, rfl, rfl,
    not_not.1 hkey, hcur, hpar, ?_, base, signature, ?_, hbs, hsig,
    Bool.eq_true_of_not_eq_false hacc⟩
  · rw [checkedFromUnixTimestamp_eq_some hat]
    rfl
  · rw [not_not.1 hdig, hinp] at hbs
    exact Message.toBeSigned_ok.2 ⟨hkd, hcom, hbs⟩

/-- What is accepted with a signature that was made for a message was signed as it is read. -/
theorem signed_of_verify {signed : Set Message} (hma : MadeFor W kind fields key signed)
    (hbo : CollisionFree W body signed) (h : kind.verify W body fields keyid key now = .ok v) :
    ∃ m ∈ signed, m.kind = kind ∧ m.body = body ∧ m.keyid = keyid ∧
    parseInput fields.signatureInput kind.componentList = .ok m.parsed ∧ v = m.verified ∧
    m.expires - m.created ≤ maxLifetime := by
  obtain ⟨m, hkd, hmbo, hkey, -, hprs, hvd, _, _, hbs, hspe, hsig, hacc⟩ :=
    message_of_verify h
  obtain ⟨m', hm', hbs'⟩ := hma _ _ hspe hsig hacc
  obtain rfl : m' = m := Message.toBeSigned_inj hbs' hbs fun hsha => by
    rw [hmbo] at hsha ⊢
    exact hbo m' hm' hsha
  obtain ⟨-, hcom, -⟩ := Message.toBeSigned_ok.1 hbs
  obtain ⟨-, -, hmax, -⟩ := validateCommon_ok hcom
  exact ⟨m', hm', hkd, hmbo, hkey, hprs, hvd, hmax⟩

theorem lifetime_le_of_verify (h : kind.verify W body fields keyid key now = .ok v) :
    ∃ p, parseInput fields.signatureInput kind.componentList = .ok p ∧
    p.expires - p.created ≤ maxLifetime := by
  obtain ⟨m, -, -, -, -, hprs, -, _, _, hbs, -⟩ := message_of_verify h
  obtain ⟨-, -, hmax, -⟩ := validateCommon_ok (Message.toBeSigned_ok.1 hbs).2.1
  exact ⟨m.parsed, hprs, hmax⟩

/-! ### What was signed is accepted -/

theorem Kind.sign_ok {key : SigningKey} :
    kind.sign W body keyid nonce created expires key = .ok fields ↔ kind.validate W = .ok () ∧
    Http.sign W kind.components kind.componentList body keyid nonce (created, expires) key =
      .ok fields := by
  cases kind <;> simp [Kind.sign, signRequest, signResponse, Unique.exists_iff, Kind.validate,
    Kind.components, Kind.componentList]

/-- The signer writes the fields of a message that passes the checks. -/
theorem sign_of_toBeSigned {key : SigningKey} {signature : Bytes} (hbs : m.toBeSigned W = .ok base)
    (halg : key.algorithm = .edDsa) (hsg : key.sign (utf8 base) = some signature) :
    m.kind.sign W m.body m.keyid m.nonce (seconds m.created) (seconds m.expires) key =
      .ok (m.fields W signature) := by
  obtain ⟨hkd, hcom, hsgd⟩ := Message.toBeSigned_ok.1 hbs
  refine Kind.sign_ok.2 ⟨hkd, ?_⟩
  simp only [Http.sign, bind_ok, refuseIf_ok, okOr_ok, pure_ok, Unique.exists_iff,
    unixTimestamp_seconds, not_not]
  exact ⟨halg, hcom, base, hsgd, signature, hsg, rfl⟩

/-- The bound on the input leaves room for every message that passes the checks. -/
theorem utf8ByteSize_input_le (h : m.toBeSigned W = .ok base) :
    m.input.utf8ByteSize ≤ maxInput := by
  obtain ⟨-, hcom, -⟩ := Message.toBeSigned_ok.1 h
  obtain ⟨-, -, -, hkey, -, hnon, -⟩ := validateCommon_ok hcom
  have hcre := Decimal.utf8ByteSize_repr_le m.fits_created
  have hexp := Decimal.utf8ByteSize_repr_le m.fits_expires
  have hls : m.kind.componentList.utf8ByteSize ≤ 50 := by
    cases m.kind with
    | request => exact (by decide : requestComponents.utf8ByteSize ≤ 50)
    | response => exact (by decide : responseComponents.utf8ByteSize ≤ 50)
  have hlit : "sig1=".utf8ByteSize = 5 ∧ ";created=".utf8ByteSize = 9 ∧
      ";expires=".utf8ByteSize = 9 ∧ ";nonce=\"".utf8ByteSize = 8 ∧
      "\";keyid=\"".utf8ByteSize = 9 ∧ "\";alg=\"ed25519\"".utf8ByteSize = 15 := by
    decide
  simp only [Message.input, Http.input, String.utf8ByteSize_append, maxInput]
  omega

/-- A signed message verifies while it is current. -/
theorem verify_of_toBeSigned {signature : Bytes} (hbs : m.toBeSigned W = .ok base)
    (halg : key.algorithm = .edDsa) (hlen : signature.length = 64)
    (hacc : key.verify (utf8 base) signature = true) (hcur : m.Current now)
    (hran : -377705116800 ≤ m.expires ∧ m.expires ≤ 253402300799) :
    m.kind.verify W m.body (m.fields W signature) m.keyid key now = .ok m.verified := by
  obtain ⟨hkd, hcom, hsgd⟩ := Message.toBeSigned_ok.1 hbs
  obtain ⟨hbody, -⟩ := validateCommon_ok hcom
  have hsz : ("sig1=:" ++ (Base64.encode signature ++ ":")).utf8ByteSize ≤ 256 := by
    rw [String.utf8ByteSize_append, String.utf8ByteSize_append, Base64.utf8ByteSize_encode, hlen]
    decide
  have hbo : ¬(maxBody < m.body.length ∨ maxInput < m.input.utf8ByteSize ∨
      256 < ("sig1=:" ++ (Base64.encode signature ++ ":")).utf8ByteSize ∨
      128 < (digest W m.body).utf8ByteSize) := by
    have hinp := utf8ByteSize_input_le hbs
    rw [utf8ByteSize_digest]
    omega
  have htm : ¬(unixTimestamp now + 60 < m.created ∨ m.created < unixTimestamp now - maxLifetime ∨
      m.expires < unixTimestamp now) := by
    simp only [not_or, not_lt]
    exact hcur
  refine Kind.verify_ok.2 ⟨hkd, ?_⟩
  simp only [Http.verify, checkTime, bind_ok, refuseIf_ok, okOr_ok, pure_ok,
    Unique.exists_iff, not_not]
  exact ⟨halg, hbo, rfl, m.parsed, Message.parseInput_signed hbs, hcom, rfl, htm,
    signature, by simp [readSignature, Message.fields, hlen], base, hsgd, by simp [hacc],
    fromUnixTimestamp m.expires, if_pos hran, rfl⟩

/-! ### The lifetime of an accepted message -/

/-- The two halves of an Ed25519 key: what is signed verifies. -/
structure KeyPair where
  signing : SigningKey
  verifying : VerifyingKey
  signing_edDsa : signing.algorithm = .edDsa
  verifying_edDsa : verifying.algorithm = .edDsa
  verify_sign : ∀ bytes, ∃ signature, signing.sign bytes = some signature ∧
    signature.length = 64 ∧ verifying.verify bytes signature = true

/-- What the signer writes, the verifier accepts while it is current. -/
theorem signed_verifies (pair : KeyPair) (hbase : m.toBeSigned W = .ok base)
    (hcurrent : m.Current now) (hrange : -377705116800 ≤ m.expires ∧ m.expires ≤ 253402300799) :
    ∃ fields, m.kind.sign W m.body m.keyid m.nonce (seconds m.created) (seconds m.expires)
        pair.signing = .ok fields ∧
      m.kind.verify W m.body fields m.keyid pair.verifying now = .ok m.verified := by
  obtain ⟨signature, hsg, hlen, hacc⟩ := pair.verify_sign (utf8 base)
  exact ⟨m.fields W signature, sign_of_toBeSigned hbase pair.signing_edDsa hsg,
    verify_of_toBeSigned hbase pair.verifying_edDsa hlen hacc hcurrent hrange⟩

/-- The years an `OffsetDateTime` can name. -/
def InRange (now : ℤ) : Prop :=
  -377705116800 ≤ unixTimestamp now ∧ unixTimestamp now ≤ 253402300799

/-- The message says that it was made after `now`, by no more than the clock skew allowed. -/
def Postdated (created now : ℤ) : Prop :=
  unixTimestamp now < created ∧ created ≤ unixTimestamp now + 60

instance (created now : ℤ) : Decidable (Postdated created now) :=
  inferInstanceAs (Decidable (_ ∧ _))

instance (now : ℤ) : Decidable (InRange now) := inferInstanceAs (Decidable (_ ∧ _))

/-- The messages with a creation time that the key accepts expire after that time. -/
def ExpiresLater (W : Primitives) (key : VerifyingKey) (now created : ℤ) : Prop :=
  ∀ (kind : Kind) body fields keyid v p, kind.verify W body fields keyid key now = .ok v →
    parseInput fields.signatureInput kind.componentList = .ok p → p.created = created →
    p.created < p.expires

/-- The empty response that expires the second it is looked at. -/
def expiring (created now : ℤ) (hnow : InRange now) (h : Postdated created now) : Message where
  kind := .response 200
  body := []
  created := created
  expires := unixTimestamp now
  nonce := "0000000000000000"
  keyid := "k"
  fits_created := by
    unfold Postdated InRange at *
    unfold Decimal.Fits
    omega
  fits_expires := by
    unfold InRange at hnow
    unfold Decimal.Fits
    omega

theorem toBeSigned_expiring (hnow : InRange now) (h : Postdated created now) :
    ∃ base, (expiring created now hnow h).toBeSigned W = .ok base := by
  have hst : ∀ part ∈ [("@status", (200 : ℕ).repr)],
      '\r' ∉ part.2.toList ∧ '\n' ∉ part.2.toList := by
    decide
  obtain ⟨base, hbs⟩ :=
    exists_signatureBase hst (digest W []) (expiring created now hnow h).params
  have hcom : validateCommon [] "k" "0000000000000000" created (unixTimestamp now) = .ok () := by
    have hlf : ¬(maxBody < ([] : Bytes).length ∨
        ¬Decimal.Fits 64 (unixTimestamp now - created) ∨ unixTimestamp now - created = 0 ∨
        maxLifetime < unixTimestamp now - created) := by
      unfold Postdated at h
      unfold Decimal.Fits maxLifetime maxBody
      simp only [List.length_nil]
      omega
    simp only [validateCommon, bind_ok, refuseIf_ok]
    exact ⟨(), hlf, by decide⟩
  exact ⟨base, Message.toBeSigned_ok.2 ⟨rfl, hcom, hbs⟩⟩

/-- The lifetime of accepted messages with a creation time is positive, unless that time lies
ahead of the clock. -/
theorem accepted_lifetime (pair : KeyPair) (hnow : InRange now) (created : ℤ) :
    ExpiresLater W pair.verifying now created ↔ ¬Postdated created now := by
  constructor
  · intro hpos hpo
    obtain ⟨base, hbs⟩ : ∃ base, (expiring created now hnow hpo).toBeSigned W = .ok base :=
      toBeSigned_expiring hnow hpo
    have hcur : (expiring created now hnow hpo).Current now := by
      unfold Postdated at hpo
      unfold Message.Current maxLifetime
      simp only [expiring]
      omega
    obtain ⟨signature, -, hlen, hacc⟩ := pair.verify_sign (utf8 base)
    have hver := verify_of_toBeSigned hbs pair.verifying_edDsa hlen hacc hcur hnow
    have hlt := hpos _ _ _ _ _ _ hver (Message.parseInput_signed hbs) rfl
    exact absurd hlt (not_lt.2 hpo.1.le)
  · intro hpo kind body fields keyid v p hver hpar hcre
    obtain ⟨m, rfl, -, -, ⟨hahe, -, hexp⟩, hprs, -, base, -, hbs, -⟩ :=
      message_of_verify hver
    cases hprs.symm.trans hpar
    obtain ⟨-, hcom, -⟩ := Message.toBeSigned_ok.1 hbs
    obtain ⟨-, hz, -⟩ := validateCommon_ok hcom
    simp only [Message.parsed] at hcre ⊢
    unfold Postdated at hpo
    omega

/-- Messages that verify were signed as they are read, their base determines them, and their
lifetime is bounded, and positive unless they are post-dated. -/
theorem verified_signed_and_positive_iff (W : Primitives) :
    (∀ (kind : Kind) body fields keyid key now v signed, MadeFor W kind fields key signed →
      CollisionFree W body signed → kind.verify W body fields keyid key now = .ok v →
      ∃ m ∈ signed, m.kind = kind ∧ m.body = body ∧ m.keyid = keyid ∧
      parseInput fields.signatureInput kind.componentList = .ok m.parsed ∧ v = m.verified ∧
      m.expires - m.created ≤ maxLifetime) ∧ (∀ (kind : Kind) body fields keyid key now v,
      kind.verify W body fields keyid key now = .ok v →
      ∃ p, parseInput fields.signatureInput kind.componentList = .ok p ∧
      p.expires - p.created ≤ maxLifetime) ∧
    (∀ (m m' : Message) base, m.toBeSigned W = .ok base → m'.toBeSigned W = .ok base →
      (W.sha256 m.body = W.sha256 m'.body → m.body = m'.body) → m = m') ∧
    ∀ (pair : KeyPair) now, InRange now → ∀ created,
      ExpiresLater W pair.verifying now created ↔ ¬Postdated created now := by
  refine ⟨?_, ?_, ?_, ?_⟩
  · intro _ _ _ _ _ _ _ _ hma hbo hver
    exact signed_of_verify hma hbo hver
  · intro _ _ _ _ _ _ _ hver
    exact lifetime_le_of_verify hver
  · intro _ _ _ h h' hsha
    exact Message.toBeSigned_inj h h' hsha
  · intro pair _ hnow created
    exact accepted_lifetime pair hnow created

/-! ### A request, and a response that expires before it was made -/

/-- So many bytes, the first of a text. -/
def padded (n : ℕ) (bytes : Bytes) : Bytes := (bytes ++ List.replicate n 0).take n

theorem length_padded (n : ℕ) (bytes : Bytes) : (padded n bytes).length = n := by
  simp [padded]

/-- Primitives to evaluate: they know one URL, and a digest is the start of a body. -/
def sample : Primitives where
  parseUrl text := if text = "https://peer.example/inbox"
    then some ⟨"https", "", none, some "peer.example", none, "/inbox", none, none, false⟩ else none
  sha256 := padded 32
  length_sha256 := length_padded 32

/-- A key whose signatures are the ends of texts. -/
def ending : KeyPair where
  signing := ⟨.edDsa, fun bytes => some (padded 64 bytes.reverse)⟩
  verifying := ⟨.edDsa, fun bytes signature => signature == padded 64 bytes.reverse⟩
  signing_edDsa := rfl
  verifying_edDsa := rfl
  verify_sign _ := ⟨_, rfl, length_padded .., beq_self_eq_true _⟩

/-- A request that is good for five minutes. -/
def posted : Message where
  kind := .request ⟨"POST", "https://peer.example/inbox"⟩
  body := [123, 125]
  created := 1000
  expires := 1300
  nonce := "0123456789abcdef"
  keyid := "k"
  fits_created := by decide
  fits_expires := by decide

/-- A response made a minute ahead of the clock. -/
def ahead : Message := expiring 1060 (seconds 1000) (by decide) (by decide)

/-- The fields that `ending` makes of a message. -/
def ended (m : Message) : SignedFields :=
  m.fields sample (padded 64 (utf8 ((m.toBeSigned sample).toOption.getD "")).reverse)

/-- The signer writes, and the verifier accepts, a response that expired sixty seconds before it
was made. -/
theorem expired_before_created :
    ∃ fields v p, signResponse sample 200 [] "k" "0000000000000000" (seconds 1060) (seconds 1000)
        ending.signing = .ok fields ∧
      verifyResponse sample 200 [] fields "k" ending.verifying (seconds 1000) = .ok v ∧
      parseInput fields.signatureInput responseComponents = .ok p ∧ p.expires < p.created := by
  refine ⟨ended ahead, ahead.verified, ahead.parsed, ?_, ?_, ?_, ?_⟩ <;> decide +kernel

theorem toBeSigned_posted : ∃ base, posted.toBeSigned sample = .ok base := by
  have hpar : ∀ part ∈ posted.kind.components, '\r' ∉ part.2.toList ∧ '\n' ∉ part.2.toList := by
    decide +kernel
  obtain ⟨base, hbs⟩ := exists_signatureBase hpar (digest sample posted.body) posted.params
  exact ⟨base, Message.toBeSigned_ok.2 ⟨by decide +kernel, by decide +kernel, hbs⟩⟩

theorem verified_signed_and_positive_iff_posted :
    (∃ m ∈ ({posted, ahead} : Set Message), m.kind = posted.kind ∧ m.body = [123, 125] ∧
      m.keyid = "k" ∧
      parseInput (ended posted).signatureInput posted.kind.componentList = .ok m.parsed ∧
      posted.verified = m.verified ∧ m.expires - m.created ≤ maxLifetime) ∧
    (∃ p, parseInput (ended posted).signatureInput posted.kind.componentList = .ok p ∧
      p.expires - p.created ≤ maxLifetime) ∧
    (∀ base, posted.toBeSigned sample = .ok base → ahead.toBeSigned sample ≠ .ok base) ∧
    ExpiresLater sample ending.verifying (seconds 1000) 1000 ∧
    ¬ExpiresLater sample ending.verifying (seconds 1000) 1060 := by
  obtain ⟨hsgd, hlf, hinj, hpos⟩ := verified_signed_and_positive_iff sample
  have hver : posted.kind.verify sample [123, 125] (ended posted) "k" ending.verifying
      (seconds 1200) = .ok posted.verified := by
    decide +kernel
  have hma : MadeFor sample posted.kind (ended posted) ending.verifying {posted, ahead} := by
    intro base _ hbs _ _
    exact ⟨posted, .inl rfl, Message.toBeSigned_ok.2 ⟨by decide +kernel, by decide +kernel, hbs⟩⟩
  have hfr : CollisionFree sample [123, 125] {posted, ahead} := by
    rintro m (rfl | rfl) h
    · rfl
    · exact absurd h (by decide +kernel)
  have hne : posted ≠ ahead ∧ sample.sha256 posted.body ≠ sample.sha256 ahead.body := by
    decide +kernel
  refine ⟨hsgd posted.kind [123, 125] (ended posted) "k" ending.verifying (seconds 1200)
    posted.verified {posted, ahead} hma hfr hver, hlf posted.kind [123, 125] (ended posted)
    "k" ending.verifying (seconds 1200) posted.verified hver, ?_, ?_, ?_⟩
  · intro base hbs hbs'
    exact hne.1 (hinj posted ahead base hbs hbs' fun h => absurd h hne.2)
  · rw [hpos ending (seconds 1000) (by decide) 1000]
    decide
  · rw [hpos ending (seconds 1000) (by decide) 1060]
    decide

theorem signed_verifies_posted :
    ∃ fields, posted.kind.sign sample [123, 125] "k" "0123456789abcdef" (seconds 1000)
        (seconds 1300) ending.signing = .ok fields ∧
      posted.kind.verify sample [123, 125] fields "k" ending.verifying (seconds 1200) =
        .ok posted.verified := by
  obtain ⟨base, hbs⟩ := toBeSigned_posted
  have hcu : posted.Current (seconds 1200) := ⟨by decide, by decide, by decide⟩
  exact signed_verifies ending hbs hcu (by decide)

end AsteriusIdp.Http
