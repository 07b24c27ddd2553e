import AsteriusIdp.Federation.Chain
import AsteriusIdp.Federation.Constraints

/-!
# An accepted chain is a trusted path

The checks of the validator sit in several loops with their own index conventions.  What they
amount to together is stated in terms of the path of entities from the leaf to the anchor (`path`)
and of the keys that each statement hands down to the one below it (`Delegated`).

* `linkSteps_spec` : the path loop accepts linked statements with distinct issuers.
* `checkSignatures_spec` : every statement is signed with a key of the next, the last with a pinned
  one.
* `checkPathLength_spec`, `checkNaming_spec` : the constraints bind every entity below their issuer.
* `TrustAnchor.accept_trusted` : **an accepted chain is a simple path** from the leaf to the anchor
  whose statements are in force and signed from above and whose constraints all hold.

That a signature which verifies was made by the holder of the key is the assumption `Signed` of
the section below.
-/

namespace AsteriusIdp.Federation

open Fallible

/-! ### Lifetimes -/

theorem Statement.parse_inForce {Key : Type} {J : Jose Key} {raw : String} {now : ℤ}
    {statement : Statement} (h : Statement.parse J raw now = .ok statement) :
    statement.claims.iat < now ∧ now < statement.claims.exp := by
  simp only [Statement.parse, bind_ok, refuseIf_ok, pure_ok] at h
  obtain ⟨_, -, _, -, _, -, _, -, _, -, _, -, _, -, _, -, _, -, _, -, _, -, _, -, _, -, _, -,
    _, hlf, _, -, _, -, _, -, _, -, rfl⟩ := h
  constructor
  · by_contra hno
    exact hlf (.inl (not_lt.1 hno))
  · by_contra hno
    exact hlf (.inr (.inl (not_lt.1 hno)))

/-! ### The path -/

/-- The entities from the leaf up to the anchor: the issuers of the statements, without the
anchor's own configuration. -/
def path (statements : List Statement) : List String :=
  (statements.take (statements.length - 1)).map (·.claims.iss)

variable {statements : List Statement} {issuers : List String} {index : ℕ} {constraints : Object}
  {parseUrl : UrlParser} {issuers' below : List String}

theorem linkStep_spec {e : Statement × ℕ} (h : linkStep statements issuers e = .ok issuers') :
    (e.2 < statements.length - 1 → statements[e.2 + 1]?.map (·.claims.sub) = some e.1.claims.iss) ∧
    (issuers.Nodup → issuers'.Nodup) ∧
    issuers' = issuers ++ if e.2 < statements.length - 1 then [e.1.claims.iss] else [] := by
  simp only [linkStep, bind_ok, refuseIf_ok, pure_ok] at h
  obtain ⟨_, -, _, hcyc, _, hlk, rfl⟩ := h
  by_cases hlt : e.2 < statements.length - 1
  · simp only [hlt, true_and, not_not, if_true] at hcyc hlk ⊢
    refine ⟨fun _ => hlk, fun hnod => ?_, trivial⟩
    exact List.nodup_append'.2 ⟨hnod, List.nodup_singleton _, by simpa using hcyc⟩
  · simp [hlt]

theorem linkSteps_spec {l : List (Statement × ℕ)}
    (h : l.foldlM (linkStep statements) issuers = .ok issuers') :
    (∀ e ∈ l, e.2 < statements.length - 1 →
      statements[e.2 + 1]?.map (·.claims.sub) = some e.1.claims.iss) ∧
    (issuers.Nodup → issuers'.Nodup) ∧
    issuers' = issuers ++ (l.filter fun e => e.2 < statements.length - 1).map (·.1.claims.iss) := by
  induction l generalizing issuers with
  | nil =>
    simp only [List.foldlM_nil, pure_ok] at h
    subst h
    simp
  | cons e l ih =>
    simp only [List.foldlM_cons, bind_ok] at h
    obtain ⟨_, h₁, h⟩ := h
    obtain ⟨hlk, hnodup, rfl⟩ := linkStep_spec h₁
    obtain ⟨hls, hnod, rfl⟩ := ih h
    refine ⟨?_, fun hi => hnod (hnodup hi), ?_⟩
    · intro e' he'
      rcases List.mem_cons.1 he' with rfl | he'
      · exact hlk
      · exact hls e' he'
    · by_cases hlt : e.2 < statements.length - 1 <;> simp [hlt]

theorem map_filter_zipIdx {α β : Type*} (f : α → β) (l : List α) (k n : ℕ) :
    ((l.zipIdx k).filter fun e => e.2 < k + n).map (fun e => f e.1) = (l.take n).map f := by
  induction l generalizing k n with
  | nil => simp
  | cons x l ih =>
    cases n with
    | zero =>
      simp only [List.take_zero, List.map_nil, List.map_eq_nil_iff, List.filter_eq_nil_iff,
        decide_eq_true_eq, not_lt]
      intro _ he
      exact List.le_snd_of_mem_zipIdx he
    | succ n =>
      have := ih (k + 1) n
      rw [Nat.add_right_comm, Nat.add_assoc] at this
      simp [this]

/-- The path loop accepts linked statements by distinct issuers. -/
theorem path_spec (h : statements.zipIdx.foldlM (linkStep statements) [] = .ok issuers) :
    (∀ i statement above, statements[i]? = some statement → statements[i + 1]? = some above →
      statement.claims.iss = above.claims.sub) ∧ (path statements).Nodup := by
  obtain ⟨hls, hnod, heq⟩ := linkSteps_spec h
  constructor
  · intro i statement above hs ha
    have hlt := (List.getElem?_eq_some_iff.1 ha).1
    have := hls (statement, i) (List.mem_zipIdx_iff_getElem?.2 hs) (by simp only; omega)
    rw [ha] at this
    exact (Option.some.inj this).symm
  · have hp := map_filter_zipIdx (·.claims.iss) statements 0 (statements.length - 1)
    simp only [Nat.zero_add] at hp
    rw [hp] at heq
    subst heq
    exact hnod List.nodup_nil

variable {leaf : Statement}

theorem path_head (h : 2 ≤ statements.length)
    (hlf : statements[0]? = some leaf) : (path statements).head? = some leaf.claims.iss := by
  have hne : statements.length - 1 ≠ 0 := by omega
  rw [path, List.head?_map, List.head?_take, if_neg hne, List.head?_eq_getElem?, hlf]
  rfl

/-- The last subordinate statement is issued by the entity the top configuration is about. -/
theorem path_getLast {top : Statement} (h : 2 ≤ statements.length)
    (htop : statements[statements.length - 1]? = some top)
    (hls : ∀ i statement above, statements[i]? = some statement →
      statements[i + 1]? = some above → statement.claims.iss = above.claims.sub) :
    (path statements).getLast? = some top.claims.sub := by
  have hlt : statements.length - 2 < statements.length := by omega
  have hnx : statements.length - 2 + 1 = statements.length - 1 := by omega
  have hlk := hls (statements.length - 2) _ top (List.getElem?_eq_getElem hlt)
    (by rw [hnx, htop])
  have hla : (statements.take (statements.length - 1)).getLast? =
      some statements[statements.length - 2] := by
    rw [List.getLast?_eq_getElem?, List.length_take, List.getElem?_take_of_lt (by omega),
      ← List.getElem?_eq_getElem hlt]
    congr 1
    omega
  rw [path, List.getLast?_map, hla, Option.map_some, hlk]

/-- The entities whose names the constraints of statement `index` are checked against are the
entities of the path below its issuer. -/
theorem entitiesBelow_eq (hlf : statements[0]? = some leaf)
    (hsf : leaf.claims.iss = leaf.claims.sub) (hpos : 0 < index) (hlt : index < statements.length) :
    entitiesBelow statements index = (path statements).take index := by
  cases statements with
  | nil => simp at hlf
  | cons s rest =>
    simp only [List.getElem?_cons_zero, Option.some.injEq] at hlf
    subst hlf
    obtain ⟨i, rfl⟩ : ∃ i, index = i + 1 := ⟨index - 1, by omega⟩
    simp only [List.length_cons] at hlt
    obtain ⟨n, hn⟩ : ∃ n, rest.length = n + 1 := ⟨rest.length - 1, by omega⟩
    simp only [entitiesBelow, path, List.length_cons, Nat.add_sub_cancel, hn, List.take_succ_cons,
      List.take_zero, List.map_cons, List.map_nil, List.drop_succ_cons, List.drop_zero,
      List.singleton_append, ← List.map_take, List.take_take, hsf]
    rw [Nat.min_eq_left (by omega)]

/-! ### Signatures -/

section Signatures

variable {Key : Type} {J : Jose Key} {anchor : TrustAnchor Key} {Signed : Key → Unverified → Prop}
  {statement leaf top : Statement} {keys : List (NamedKey Key)}

/-- The key of the set that the header names signed the statement. -/
def SignedBy (Signed : Key → Unverified → Prop) (keys : List (NamedKey Key))
    (statement : Statement) : Prop :=
  ∃ key ∈ keys, key.kid.isSome ∧ key.kid = statement.token.kid ∧ Signed key.key statement.token

/-- A key that the statement `above` gives its subject signed the statement. -/
def Delegated (J : Jose Key) (Signed : Key → Unverified → Prop) (above statement : Statement) :
    Prop :=
  ∃ keys, J.keysFromJwkSet above.claims.jwks = some keys ∧ SignedBy Signed keys statement

section

variable (hsound : ∀ key token, J.verify key token = true → Signed key token)
include hsound

theorem verifyWith_spec (h : verifyWith J statement keys = .ok ()) :
    SignedBy Signed keys statement := by
  simp only [verifyWith, bind_ok, okOr_ok] at h
  obtain ⟨kid, hkid, h⟩ := h
  split at h
  · rename_i key hfl
    have hmem : key ∈ keys.filter fun k => k.kid = some kid := by simp [hfl]
    obtain ⟨hin, hnm⟩ := List.mem_filter.1 hmem
    rw [decide_eq_true_eq] at hnm
    exact ⟨key, hin, hnm ▸ rfl, hnm.trans hkid.symm, hsound _ _ (by simpa using h)⟩
  · cases h

theorem delegated_of_verifyWith {above : Statement} (hks : statementKeys J above = .ok keys)
    (h : verifyWith J statement keys = .ok ()) : Delegated J Signed above statement :=
  ⟨keys, okOr_ok.1 hks, verifyWith_spec hsound h⟩

/-- A signed chain: the pinned keys sign the top, every statement signs the one below it, and the
leaf itself. -/
theorem checkSignatures_spec
    (h : TrustAnchor.checkSignatures J anchor leaf top statements = .ok ()) :
    SignedBy Signed anchor.keys top ∧ Delegated J Signed leaf leaf ∧
    ∀ i statement above, statements[i]? = some statement → statements[i + 1]? = some above →
      Delegated J Signed above statement := by
  simp only [TrustAnchor.checkSignatures, bind_ok, forM_ok] at h
  obtain ⟨_, hpi, _, -, _, -, _, hchn, _, hown, hsf⟩ := h
  refine ⟨verifyWith_spec hsound hpi, delegated_of_verifyWith hsound hown hsf, ?_⟩
  intro i statement above hs ha
  have hlt := (List.getElem?_eq_some_iff.1 ha).1
  have hlk := hchn i (List.mem_reverse.2 (List.mem_range.2 (by omega)))
  simp only [verifyLink, hs, ha, bind_ok] at hlk
  obtain ⟨_, hks, hver⟩ := hlk
  exact delegated_of_verifyWith hsound hks hver

end

end Signatures

/-! ### Constraints -/

/-- `max_path_length` admits the entities below the issuer: the leaf and so many intermediates. -/
def PathLengthHolds (constraints : Object) (below : List String) : Prop :=
  ∀ value, constraints.lookup "max_path_length" = some value →
    ∃ n, value = .num (.posInt n) ∧ (below.drop 1).length ≤ n.toNat

/-- The entity's host is in no excluded domain, and in a permitted one if there are any. -/
def NameAllowed (parseUrl : UrlParser) (names : Object) (entity : String) : Prop :=
  ∃ url host, parseUrl entity = some url ∧ url.host = some host ∧
    (∀ value, names.lookup "excluded" = some value → ∃ domains : List String,
      value = .arr (domains.map .str) ∧ ∀ domain ∈ domains, dnsMatch host domain = false) ∧
    ∀ value, names.lookup "permitted" = some value → ∃ domains : List String,
      value = .arr (domains.map .str) ∧ ∃ domain ∈ domains, dnsMatch host domain = true

/-- `naming_constraints` admit the entities below the issuer. -/
def NamingHolds (parseUrl : UrlParser) (constraints : Object) (below : List String) :
    Prop :=
  ∀ value, constraints.lookup "naming_constraints" = some value →
    ∃ names, value = .obj names ∧ ∀ entity ∈ below, NameAllowed parseUrl names entity

theorem checkPathLength_spec (h : checkPathLength constraints index = .ok ())
    (hlen : below.length = index) : PathLengthHolds constraints below := by
  intro _ hval
  simp only [checkPathLength, hval, bind_ok, okOr_ok, Json.asU64_eq_some, refuseIf_ok, not_lt] at h
  obtain ⟨_, ⟨n, rfl, rfl⟩, hle⟩ := h
  exact ⟨n, rfl, by rw [List.length_drop, hlen]; exact hle⟩

theorem checkName_spec {permitted : Option (List String)} {excluded : List String} {entity : String}
    (h : checkName parseUrl permitted excluded entity = .ok ()) :
    ∃ url host, parseUrl entity = some url ∧ url.host = some host ∧
    (∀ domain ∈ excluded, dnsMatch host domain = false) ∧
    ∀ domains, permitted = some domains → ∃ domain ∈ domains, dnsMatch host domain = true := by
  simp only [checkName, bind_ok, okOr_ok, refuseIf_ok, not_or] at h
  obtain ⟨url, hurl, host, hho, hexcl, hpm⟩ := h
  refine ⟨url, host, hurl, hho, ?_, ?_⟩
  · intro domain hmem
    by_contra hmat
    exact hexcl ⟨domain, hmem, by simpa using hmat⟩
  · rintro domains rfl
    by_contra hno
    exact hpm ⟨domains, rfl, hno⟩

theorem domainList_spec {names : Object} {key what : String} {domains? : Option (List String)}
    (h : domainList names key what = .ok domains?) {value : Json}
    (hval : names.lookup key = some value) :
    ∃ domains, domains? = some domains ∧ value = .arr (domains.map .str) := by
  simp only [domainList, hval, map_ok] at h
  obtain ⟨domains, hdom, rfl⟩ := h
  exact ⟨domains, rfl, strings_ok hdom⟩

theorem NamingHolds.mono {below' : List String} (h : NamingHolds parseUrl constraints below)
    (hsub : ∀ entity ∈ below', entity ∈ below) : NamingHolds parseUrl constraints below' := by
  intro value hval
  obtain ⟨names, heq, hnms⟩ := h value hval
  exact ⟨names, heq, fun entity hent => hnms entity (hsub entity hent)⟩

theorem checkNaming_spec {chain : List Statement}
    (h : checkNaming parseUrl constraints index chain = .ok ()) :
    NamingHolds parseUrl constraints (entitiesBelow chain index) := by
  intro value hval
  simp only [checkNaming, hval, object, bind_ok, okOr_ok, Json.asObject_eq_some, forM_ok] at h
  obtain ⟨names, rfl, _, hpm, _, hexcl, _, -, hnms⟩ := h
  refine ⟨names, rfl, fun entity hent => ?_⟩
  obtain ⟨url, host, hurl, hho, hex, hper⟩ := checkName_spec (hnms entity hent)
  refine ⟨url, host, hurl, hho, fun value hval => ?_, fun value hval => ?_⟩
  · obtain ⟨domains, rfl, hdom⟩ := domainList_spec hexcl hval
    exact ⟨domains, hdom, hex⟩
  · obtain ⟨domains, rfl, hdom⟩ := domainList_spec hpm hval
    exact ⟨domains, hdom, hper domains rfl⟩

/-! ### Trusted chains -/

/-- The constraints of one statement hold: for the entities of the path below its issuer, and for
the entity types of the metadata. -/
structure ConstraintsHold (parseUrl : UrlParser) (below : List String) (metadata : Json)
    (constraints : Object) : Prop where
  /-- Not more intermediates than allowed. -/
  pathLength : PathLengthHolds constraints below
  /-- Leaf and intermediates have allowed names. -/
  naming : NamingHolds parseUrl constraints below
  /-- The metadata has allowed entity types only. -/
  types : ∀ T, (metadata.member T).isSome → TypeAllowed constraints T

/-- What an accepted chain of statements is. -/
structure Trusted {Key : Type} (J : Jose Key) (anchor : TrustAnchor Key)
    (Signed : Key → Unverified → Prop) (now : ℤ) (statements : List Statement)
    (verified : VerifiedChain) : Prop where
  /-- The first statement is the leaf's own. -/
  leaf : ∃ leaf, statements[0]? = some leaf ∧ leaf.claims.iss = verified.leafEntityId ∧
    leaf.claims.sub = verified.leafEntityId
  /-- The path starts at the leaf. -/
  head : (path statements).head? = some verified.leafEntityId
  /-- The path ends at the configured anchor. -/
  getLast : (path statements).getLast? = some anchor.entityId
  /-- No entity is on the path twice. -/
  simple : (path statements).Nodup
  /-- Each statement's issuer is the next statement's subject. -/
  linked : ∀ i statement above, statements[i]? = some statement →
    statements[i + 1]? = some above → statement.claims.iss = above.claims.sub
  /-- Each statement is signed with a key that the next gives its subject. -/
  delegated : ∀ i statement above, statements[i]? = some statement →
    statements[i + 1]? = some above → Delegated J Signed above statement
  /-- The last one is signed with a pinned key of the anchor. -/
  pinned : ∃ top, statements[statements.length - 1]? = some top ∧ SignedBy Signed anchor.keys top
  /-- No statement is expired or not yet valid. -/
  inForce : ∀ statement ∈ statements, statement.claims.iat < now ∧ now < statement.claims.exp
  /-- The resolved metadata has no entity type that the leaf did not publish. -/
  published : ∀ T, (verified.metadata.member T).isSome → ∃ leaf metadata,
    statements[0]? = some leaf ∧ leaf.claims.metadata = some metadata ∧ (metadata.member T).isSome
  /-- Every constraint on the path holds below its issuer. -/
  constrained : ∀ index statement value, statements[index]? = some statement →
    statement.claims.other.lookup "constraints" = some value →
      ∃ constraints, value = .obj constraints ∧
    ConstraintsHold J.parseUrl ((path statements).take index) verified.metadata constraints

namespace TrustAnchor

variable {Key : Type} {J : Jose Key} {anchor : TrustAnchor Key} {Signed : Key → Unverified → Prop}
  {statements : List Statement} {verified : VerifiedChain} {now : ℤ}

theorem checkPath_spec {leaf superior top : Statement}
    (h : checkPath anchor leaf superior top statements = .ok ()) :
    leaf.claims.iss = leaf.claims.sub ∧ top.claims.iss = anchor.entityId ∧
    top.claims.sub = anchor.entityId ∧
    (∀ i statement above, statements[i]? = some statement → statements[i + 1]? = some above →
      statement.claims.iss = above.claims.sub) ∧ (path statements).Nodup := by
  simp only [checkPath, bind_ok, refuseIf_ok, not_or, not_not] at h
  obtain ⟨_, hsf, _, ⟨hiss, hsub⟩, _, hls, -⟩ := h
  obtain ⟨hlk, hsi⟩ := path_spec hls
  exact ⟨hsf, hiss, hsub, hlk, hsi⟩

section

variable (hsound : ∀ key token, J.verify key token = true → Signed key token)
include hsound

theorem validateStatements_trusted (hlen : 3 ≤ statements.length)
    (hfor : ∀ statement ∈ statements, statement.claims.iat < now ∧ now < statement.claims.exp)
    (h : validateStatements J anchor statements = .ok verified) :
    Trusted J anchor Signed now statements verified := by
  unfold validateStatements at h
  split at h
  · rename_i leaf superior top hlf hsup htop
    simp only [bind_ok, pure_ok] at h
    obtain ⟨_, hp, _, hsig, _, -, metadata, hrsv, _, -, rfl⟩ := h
    obtain ⟨hsf, hiss, hsub, hlk, hsi⟩ := checkPath_spec hp
    obtain ⟨leaf', published, types, hlf', hpub, rfl, hna, hchk⟩ :=
      resolve_checked hrsv
    obtain ⟨hpi, -, hdel⟩ := checkSignatures_spec hsound hsig
    refine ⟨⟨leaf, hlf, rfl, hsf.symm⟩, path_head (by omega) hlf, ?_, hsi, hlk, hdel,
      ⟨top, htop, hpi⟩, hfor, ?_, ?_⟩
    · rw [path_getLast (by omega) htop hlk, hsub]
    · exact fun T hT => ⟨leaf', .obj published, hlf', hpub, hna T hT⟩
    · intro index statement value hs hval
      obtain ⟨constraints, rfl, hc⟩ := hchk index statement hs value hval
      have hlt := (List.getElem?_eq_some_iff.1 hs).1
      have hbel : ((path statements).take index).length = index := by
        simp only [path, List.length_take, List.length_map]
        omega
      refine ⟨constraints, rfl, checkPathLength_spec hc.pathLength hbel,
        (checkNaming_spec hc.naming).mono ?_, hc.types⟩
      intro entity hent
      rcases Nat.eq_zero_or_pos index with rfl | hpos
      · simp at hent
      · rwa [entitiesBelow_eq hlf hsf hpos hlt]
  · cases h

variable {compactStatements : List String}

theorem validate_trusted {tenant : String}
    (h : validate J anchor tenant compactStatements now = .ok verified) :
    ∃ statements, compactStatements.mapM (fun raw => Statement.parse J raw now) = .ok statements ∧
    Trusted J anchor Signed now statements verified := by
  simp only [validate, bind_ok, refuseIf_ok, not_not] at h
  obtain ⟨_, -, _, ⟨hlen, -⟩, statements, hpar, h⟩ := h
  have hall := mapM_ok.1 hpar
  refine ⟨statements, hpar, validateStatements_trusted hsound (hall.length_eq ▸ hlen) ?_ h⟩
  intro _ hmem
  obtain ⟨_, -, hraw⟩ := exists_of_mem_mapM hpar hmem
  exact Statement.parse_inForce hraw

/-- The configuration of an intermediate is its own, in force and signed with a key that the chain
gives it. -/
theorem checkIntermediate_spec {raw : String} {i : ℕ}
    (hpar : compactStatements.mapM (fun raw => Statement.parse J raw now) = .ok statements)
    (hlt : i + 2 < compactStatements.length)
    (h : checkIntermediate J compactStatements now (raw, i) = .ok ()) :
    ∃ configuration delegation, Statement.parse J raw now = .ok configuration ∧
    statements[i + 2]? = some delegation ∧ configuration.claims.iss = delegation.claims.sub ∧
    configuration.claims.sub = delegation.claims.sub ∧ configuration.claims.iat < now ∧
    now < configuration.claims.exp ∧ Delegated J Signed delegation configuration := by
  simp only [checkIntermediate, bind_ok, refuseIf_ok, not_or, not_not] at h
  obtain ⟨configuration, hcf, delegation, hdel, _, ⟨hsf, hsub⟩, _, -, _, hks, _, hver, -⟩ := h
  obtain ⟨hiat, hexp⟩ := Statement.parse_inForce hcf
  rw [List.getD_eq_getElem?_getD, List.getElem?_eq_getElem hlt] at hdel
  obtain ⟨_, hmem, hdel'⟩ := getElem?_of_mapM hpar (List.getElem?_eq_getElem hlt)
  cases hdel.symm.trans hdel'
  exact ⟨configuration, delegation, hcf, hmem, hsf.trans hsub, hsub, hiat, hexp,
    delegated_of_verifyWith hsound hks hver⟩

end

/-- **An accepted chain is a simple path of trust.**  Whatever chain the validator accepts, alone
or with the configurations of its intermediates, is a path from the leaf to the configured anchor
without repetition, linked statement by statement, every statement in force and signed with a key
of the next, the last with a pinned key; its metadata has only entity types the leaf published and
every constraint allows, and every constraint holds for all entities below its issuer.  The
configurations of the intermediates are in force and signed with the keys the chain gives them. -/
theorem accept_trusted (J : Jose Key) (anchor : TrustAnchor Key) (Signed : Key → Unverified → Prop)
    (hsound : ∀ key token, J.verify key token = true → Signed key token) (tenant : String)
    (compactStatements : List String) (intermediateConfigurations : Option (List String)) (now : ℤ)
    (verified : VerifiedChain)
    (h : accept J anchor tenant compactStatements intermediateConfigurations now = .ok verified) :
    ∃ statements, compactStatements.mapM (fun raw => Statement.parse J raw now) = .ok statements ∧
    Trusted J anchor Signed now statements verified ∧
    ∀ i raw, (intermediateConfigurations.getD [])[i]? = some raw → ∃ configuration delegation,
      Statement.parse J raw now = .ok configuration ∧ statements[i + 2]? = some delegation ∧
      configuration.claims.iss = delegation.claims.sub ∧
      configuration.claims.sub = delegation.claims.sub ∧ configuration.claims.iat < now ∧
      now < configuration.claims.exp ∧ Delegated J Signed delegation configuration := by
  cases intermediateConfigurations with
  | none =>
    obtain ⟨statements, hpar, htru⟩ := validate_trusted hsound h
    exact ⟨statements, hpar, htru, by simp⟩
  | some =>
    simp only [accept, validateWithIntermediates, bind_ok, refuseIf_ok, forM_ok, pure_ok] at h
    obtain ⟨_, hcnt, verified', hval, _, hch, rfl⟩ := h
    obtain ⟨statements, hpar, htru⟩ := validate_trusted hsound hval
    refine ⟨statements, hpar, htru, fun i raw hi => ?_⟩
    rw [Option.getD_some] at hi
    have hlt := (List.getElem?_eq_some_iff.1 hi).1
    exact checkIntermediate_spec hsound hpar (by omega)
      (hch (raw, i) (List.mem_zipIdx_iff_getElem?.2 hi))

/-! ### A chain to evaluate -/

/-- The claims of a statement that is in force between 0 and 100 and hands down one key. -/
def demoClaims (iss sub : String) (key : UInt64) (more : Object) : Json :=
  .obj ([("exp", .num (.posInt 100)), ("iat", .num (.posInt 0)), ("iss", .str iss),
    ("jwks", .num (.posInt key)), ("sub", .str sub)] ++ more)

/-- Compact statements and their signers: a leaf that publishes two entity types, an intermediate
that allows one of them and no intermediates below it, and an anchor. -/
def demoPayload : String → Option (Json × UInt8)
  | "leaf" => some (demoClaims "https://leaf.example" "https://leaf.example" 1
      [("authority_hints", .arr [.str "https://mid.example"]),
       ("metadata", .obj [("federation_entity", .obj []), ("openid_relying_party", .obj [])])], 1)
  | "delegation" => some (demoClaims "https://mid.example" "https://leaf.example" 1
      [("constraints", .obj [("allowed_entity_types", .arr [.str "openid_relying_party"]),
        ("max_path_length", .num (.posInt 0)),
        ("naming_constraints", .obj [("permitted", .arr [.str ".example"])])])], 2)
  | "mandate" => some (demoClaims "https://anchor.example" "https://mid.example" 2 [], 3)
  | "mid" => some (demoClaims "https://mid.example" "https://mid.example" 2
      [("authority_hints", .arr [.str "https://anchor.example"])], 2)
  | "anchor" => some (demoClaims "https://anchor.example" "https://anchor.example" 3 [], 3)
  | _ => none

/-- A signature is the name of its key. -/
def demoSigned (key : UInt8) (token : Unverified) : Prop := token.signature = [key]

/-- The JOSE code for these statements. -/
def demoJose : Jose UInt8 where
  parse raw := (demoPayload raw).map fun (payload, signer) =>
    { typ := some "entity-statement+jwt", kid := some "k", header := some (.obj []),
      payload := some payload, signingInput := raw, signature := [signer] }
  keysFromJwkSet
    | .num (.posInt key) => some [{ kid := some "k", key := key.toUInt8 }]
    | _ => none
  verify key token := token.signature == [key]
  parseUrl s := some
    { scheme := "https", username := "", password := none,
      host := some (String.ofList (s.toList.drop 8)), port := none, path := "", query := none,
      fragment := none }

/-- The anchor of the chain. -/
def demoAnchor : TrustAnchor UInt8 where
  tenant := "demo"
  entityId := "https://anchor.example"
  keys := [{ kid := some "k", key := 3 }]

/-- The chain. -/
def demoChain : List String := ["leaf", "delegation", "mandate", "anchor"]

/-- What validation of the chain returns. -/
def demoVerified : VerifiedChain where
  leafEntityId := "https://leaf.example"
  anchorEntityId := "https://anchor.example"
  expiresAt := 100
  metadata := .obj [("federation_entity", .obj []), ("openid_relying_party", .obj [])]
  relyingParty := some ⟨none, none, none, none, none, none, none, none, []⟩

theorem accept_trusted_demo :
    ∃ statements, demoChain.mapM (fun raw => Statement.parse demoJose raw 50) = .ok statements ∧
      Trusted demoJose demoAnchor demoSigned 50 statements demoVerified ∧
      ∀ i raw, ["mid"][i]? = some raw → ∃ configuration delegation,
        Statement.parse demoJose raw 50 = .ok configuration ∧ statements[i + 2]? = some delegation ∧
        configuration.claims.iss = delegation.claims.sub ∧
        configuration.claims.sub = delegation.claims.sub ∧ configuration.claims.iat < 50 ∧
        50 < configuration.claims.exp ∧ Delegated demoJose demoSigned delegation configuration :=
  accept_trusted demoJose demoAnchor demoSigned (fun _ _ h => eq_of_beq h) "demo" demoChain
    (some ["mid"]) 50 demoVerified (by rfl)

/-- `federation_entity` stays in the metadata although the constraint lists one other type. -/
theorem accept_keeps_federation_entity :
    accept demoJose demoAnchor "demo" demoChain none 50 = .ok demoVerified ∧
    (∃ delegation constraints, Statement.parse demoJose "delegation" 50 = .ok delegation ∧
      delegation.claims.other.lookup "constraints" = some (.obj constraints) ∧
      Entries.lookup constraints "allowed_entity_types" =
        some (.arr [.str "openid_relying_party"])) ∧
    demoVerified.metadata.member "federation_entity" = some (.obj []) :=
  ⟨by rfl, ⟨_, [("allowed_entity_types", .arr [.str "openid_relying_party"]),
    ("max_path_length", .num (.posInt 0)),
    ("naming_constraints", .obj [("permitted", .arr [.str ".example"])])], by rfl, by rfl, by rfl⟩,
    by rfl⟩

end TrustAnchor

end AsteriusIdp.Federation
