import AsteriusIdp.Issuance.Exchange

/-!
# Exchanges only narrow

What an exchanged token can do that its subject token could not.

* `Exchange.issue_spec`: one exchange, in terms of the ceiling the subject token sets.
* `Exchange.row_of_issue`: the grant behind the issued token names its audience and nothing else.
* `exchanges_narrow`: along a whole chain of exchanges audience and expiry only shrink; so do the
  scopes, if every subject token carries what its grant can delegate.
-/

namespace AsteriusIdp.Issuance

open Fallible AgentTask

namespace Exchange

variable {parseUrl : UrlParser} {ex : Exchange} {token issued : TokenClaims}
  {after : Store}

/-! ### The ceiling -/

theorem ceilingSets_spec {parent : Grant} {scopes resources : Finset String}
    (h : ceilingSets token parent = .ok (scopes, resources)) :
    scopes ⊆ parent.scopes ∧ (token.task.isSome → scopes ⊆ token.scope) ∧
    (token.task = none → resources = parent.resources) := by
  unfold ceilingSets at h
  split at h
  · rename_i htk
    simp only [bind_ok, pure_ok, Prod.mk.injEq] at h
    obtain ⟨-, -, rfl, -⟩ := h
    refine ⟨Finset.inter_subset_left, fun _ => Finset.inter_subset_right, fun hno => ?_⟩
    rw [hno] at htk
    cases htk
  · rename_i htk
    obtain ⟨rfl, rfl⟩ := h
    refine ⟨subset_rfl, fun hso => ?_, fun _ => rfl⟩
    rw [htk] at hso
    cases hso

variable {ceiling : Ceiling}

theorem subject_spec (h : ex.subject token = .ok ceiling) :
    ∃ parent, ex.parentId token = some ceiling.parent ∧
    ex.store.grants ceiling.parent = some parent ∧ ceiling.scopes ⊆ parent.scopes ∧
    (token.task.isSome → ceiling.scopes ⊆ token.scope) ∧
    (token.task = none → ceiling.resources = parent.resources) ∧
    ceiling.remaining = seconds token.exp - ex.now ∧ ceiling.chain = parent.actorChain := by
  simp only [subject, bind_ok, okOr_ok, pure_ok] at h
  obtain ⟨-, -, -, -, -, -, -, -, _, -, _, hid, parent, hup, -, -, ⟨_, _⟩, hse, rfl⟩ := h
  obtain ⟨hsub, htk, hno⟩ := ceilingSets_spec hse
  exact ⟨parent, hid, hup, hsub, htk, hno, rfl, rfl⟩

/-- A scope that the request names, or that it gets because it names none. -/
def asks (exchange : Exchange) (scope : String) : Bool :=
  exchange.scope.all fun text =>
    Text.splitWhitespace text = [] ∨ scope ∈ Text.splitWhitespace text

theorem scopes_spec {scopes : Finset String} (h : ex.scopes ceiling = .ok scopes) :
    ∀ scope ∈ scopes, scope ∈ ceiling.scopes ∧ delegable ex.client scope ∧ ex.asks scope := by
  simp only [Exchange.scopes, bind_ok, orFail_ok, pure_ok] at h
  obtain ⟨_, hreq, -, -, rfl⟩ := h
  intro _ hsc
  have hpm := requestedScopes_subset hreq hsc
  rw [Finset.mem_filter] at hpm
  refine ⟨hpm.1, hpm.2, ?_⟩
  rw [asks, Option.all_eq_true]
  intro text htx
  rcases requestedScopes_spec hreq with ⟨-, hno⟩ | ⟨_, htx', rfl, -⟩
  · simp [hno text htx]
  · cases htx.symm.trans htx'
    simp [List.mem_toFinset.1 hsc]

variable {lifetime : ℤ}

theorem lifetime_le (h : ex.lifetime ceiling = .ok lifetime) : lifetime ≤ ceiling.remaining := by
  simp only [Exchange.lifetime, bind_ok, pure_ok] at h
  obtain ⟨-, -, rfl⟩ := h
  exact min_le_right _ _

variable {grant : Grant}

theorem target_spec {result : Targeting} (h : ex.target parseUrl grant = .ok result) :
    result.audience ≠ ∅ ∧ (grant.resources ≠ ∅ → result.audience ⊆ grant.resources) := by
  simp only [Exchange.target, bind_ok, orFail_ok, pure_ok] at h
  obtain ⟨_, htgt, -, -, rfl⟩ := h
  obtain ⟨hne, -, -, hsub, -⟩ := ResourceRegistry.targets_spec (targeting_spec htgt).1
  exact ⟨hne, hsub⟩

/-! ### One exchange -/

theorem createForIssuance_spec {store stored : Store}
    (h : createForIssuance store grant = .ok stored) :
    store.holds grant = false ∧
    ((store.tasks (grant.parent.getD grant.id)).isSome → stored = store) := by
  simp only [createForIssuance, bind_ok, refuseIf_ok, pure_ok, Bool.not_eq_true] at h
  obtain ⟨-, hnew, rfl⟩ := h
  exact ⟨hnew, fun hso => if_pos hso⟩

theorem mint_spec {targeting : Targeting}
    (h : ex.mint grant targeting lifetime = .ok (issued, after)) :
    issued.scope ⊆ grant.scopes ∧ issued.aud = targeting.audience ∧
    issued.exp ≤ unixTimestamp (ex.now + lifetime) ∧
    ∀ parentId parent, grant.parent = some parentId →
      (ex.store.tasks parentId).isSome →
      ex.store.grants parentId = some parent → grant.resources ⊆ parent.resources := by
  simp only [mint, bind_ok, orFail_ok] at h
  obtain ⟨-, -, _, hcls, _, hsto, hsgd⟩ := h
  obtain ⟨hsc, haud, hexp, -⟩ := AccessToken.build_spec hcls
  obtain ⟨hsc', haud', hexp', -⟩ := signAccess_spec hsgd
  refine ⟨?_, haud'.trans haud, ?_, fun parentId parent hup htk hrow => ?_⟩
  · rw [hsc', hsc]
    exact Finset.inter_subset_right
  · refine hexp'.trans ?_
    rw [hexp]
    exact unixTimestamp_mono (AccessToken.expiresAt_le _)
  · obtain ⟨hnew, hsm⟩ := createForIssuance_spec hsto
    rw [hup] at hsm
    rw [hsm htk] at hsgd
    obtain ⟨_, htk⟩ := Option.isSome_iff_exists.1 htk
    exact signAccess_resources hsgd hup htk hnew hrow

/-- The token is linked to the grant: a task token by its `jti`, another one by the claim that names
it. -/
def Linked (store : Store) (token : TokenClaims) (id : String) : Prop :=
  match token.task with
  | some _ => ∃ expiry, store.taskTokens token.jti = some (id, expiry)
  | none => token.grantId.all (· = id)

/-- A token that is signed for a grant is linked to its row, which signing at most claims. -/
theorem linked_of_sign {builder : AccessToken} {store : Store} {claims : TokenClaims} {clock : ℤ}
    (hbu : builder.build = .ok claims)
    (h : signAccess store builder.grant claims clock = .ok (issued, after)) :
    Linked after issued builder.grant.id ∧ ∃ row claimed,
    (store.grants builder.grant.id = some row ∨ row = builder.grant) ∧
    after.grants builder.grant.id = some { row with claimedAt := claimed } := by
  obtain ⟨-, -, -, -, -, -, -, hgr, htk, -⟩ := AccessToken.build_spec hbu
  unfold signAccess at h
  split at h
  · simp only [signUnbound, bind_ok, pure_ok, Prod.mk.injEq] at h
    obtain ⟨_, ⟨_, hlk, -, -, -, -, hcap⟩, rfl, rfl⟩ := h
    obtain ⟨exp, -, rfl⟩ := capAuthorityExpiry_spec hcap
    obtain ⟨_, row, -, hexis, -⟩ := lockIssuanceAuthority_spec hlk
    refine ⟨?_, row, row.claimedAt, .inl hexis, hexis⟩
    rw [Linked, htk, hgr]
    split_ifs <;> simp
  · simp only [signFenced, Store.claim, bind_ok, okOr_ok, pure_ok, Prod.mk.injEq] at h
    obtain ⟨-, -, -, -, -, -, _, ⟨row, hsto, -, -, rfl⟩, _, -, _, hcap, rfl, rfl⟩ := h
    obtain ⟨_, -, rfl⟩ := capAuthorityExpiry_spec hcap
    refine ⟨⟨_, Function.update_self ..⟩, row, _, ?_, Function.update_self ..⟩
    split_ifs at hsto
    · exact .inl hsto
    · rw [store.insert_self, Option.some.injEq] at hsto
      exact .inr hsto.symm

/-- The grant that a token is minted for is stored as it is. -/
theorem row_of_mint {targeting : Targeting}
    (h : ex.mint grant targeting lifetime = .ok (issued, after)) :
    Linked after issued grant.id ∧
    ∃ claimed, after.grants grant.id = some { grant with claimedAt := claimed } := by
  simp only [mint, bind_ok, orFail_ok] at h
  obtain ⟨-, -, _, hcls, _, hsto, hsgd⟩ := h
  obtain ⟨hlk, row, claimed, hrow, haft⟩ := linked_of_sign hcls hsgd
  obtain rfl : row = grant := by
    refine hrow.elim (fun hrow => ?_) id
    simp only [createForIssuance, bind_ok, refuseIf_ok, pure_ok] at hsto
    obtain ⟨-, hnew, rfl⟩ := hsto
    rw [Bool.not_eq_true, Store.holds] at hnew
    split_ifs at hrow
    · change ex.store.grants grant.id = some row at hrow
      rw [hrow] at hnew
      cases hnew
    · change (ex.store.insert grant).grants grant.id = some row at hrow
      rw [Store.insert_self, Option.some.injEq] at hrow
      exact hrow.symm
  exact ⟨hlk, claimed, haft⟩

/-- What an exchange issues, in terms of the subject token and the authorization behind it. -/
theorem issue_spec (h : ex.issue parseUrl token = .ok (issued, after)) :
    ∃ parent, ex.parent token = some parent ∧ issued.exp ≤ token.exp ∧
    (parent.resources ≠ ∅ → issued.aud ⊆ parent.resources) ∧
    (token.task.isSome → issued.scope ⊆ token.scope) ∧
    ∀ scope ∈ issued.scope, scope ∈ parent.scopes ∧ delegable ex.client scope ∧ ex.asks scope := by
  simp only [issue, bind_ok, orFail_ok] at h
  obtain ⟨-, -, -, -, ceiling, hcei, chain, -, scopes, hscs, lifetime, hlf,
    targeting, htgt, ⟨grant, capped⟩, hpp, _, -, hmt⟩ := h
  obtain ⟨parent, hid, hup, hsub, htk, hno, hrem, -⟩ := subject_spec hcei
  obtain ⟨-, hgrantP, hgra, hgr, -, hca⟩ := prepare_spec hpp
  obtain ⟨his, haud, hexp, hfen⟩ := mint_spec hmt
  change grant.scopes = scopes at hgra
  change grant.resources = targeting.audience at hgr
  have hsc : ∀ scope ∈ issued.scope, scope ∈ scopes := fun scope hsc =>
    hgra ▸ his hsc
  refine ⟨parent, ?_, ?_, fun hrs => ?_, fun hbd scope hmem => ?_, fun scope hmem => ?_⟩
  · rw [Exchange.parent, hid]
    exact hup
  · have hend : ex.now + capped ≤ seconds token.exp := by
      have hle := hca.trans (lifetime_le hlf)
      omega
    have hflo := hexp.trans (unixTimestamp_mono hend)
    rwa [unixTimestamp_seconds] at hflo
  · rw [haud]
    cases hcs : token.task with
    | none =>
      -- The child starts from the resources of its parent, and a target stays inside them.
      have hce := hno hcs
      rw [← hce] at hrs ⊢
      exact (target_spec htgt).2 hrs
    | some =>
      -- The ceiling may be empty here; what holds is the fence around the signature.
      have hbd : (ex.store.tasks ceiling.parent).isSome := by
        rw [parentId, hcs] at hid
        exact tasks_of_activeLink hid
      rw [← hgr]
      exact hfen ceiling.parent parent hgrantP hbd hup
  · exact htk hbd (scopes_spec hscs scope (hsc scope hmem)).1
  · obtain ⟨hmem, hre⟩ := scopes_spec hscs scope (hsc scope hmem)
    exact ⟨hsub hmem, hre⟩

/-- The grant behind the issued token names the audience of the token. -/
theorem row_of_issue (h : ex.issue parseUrl token = .ok (issued, after)) :
    issued.aud ≠ ∅ ∧ ∃ id row, Linked after issued id ∧ after.grants id = some row ∧
    row.resources = issued.aud := by
  simp only [issue, bind_ok, orFail_ok] at h
  obtain ⟨-, -, -, -, _, -, _, -, _, -, _, -, _, htgt, ⟨grant, _⟩, hpp, _, -, hmt⟩ := h
  obtain ⟨-, -, -, hrs, -⟩ := prepare_spec hpp
  obtain ⟨-, haud, -⟩ := mint_spec hmt
  obtain ⟨hlk, _, hrow⟩ := row_of_mint hmt
  rw [haud]
  exact ⟨(target_spec htgt).1, _, _, hlk, hrow, hrs⟩

/-- The exchange issues a token for a subject token. -/
def Issues (parseUrl : UrlParser) (exchange : Exchange) (token issued : TokenClaims) :
    Prop :=
  ∃ after, exchange.issue parseUrl token = .ok (issued, after)

/-- The subject token is a task token, or it carries every scope of its grant that the request
asks for and the client may be delegated. -/
def CarriesGrant (exchange : Exchange) (token : TokenClaims) : Prop :=
  token.task.isSome ∨ ∀ grant, exchange.parent token = some grant →
    ∀ scope ∈ grant.scopes, delegable exchange.client scope → exchange.asks scope →
      scope ∈ token.scope

theorem scope_subset (h : ex.issue parseUrl token = .ok (issued, after))
    (hca : ex.CarriesGrant token) : issued.scope ⊆ token.scope := by
  obtain ⟨parent, hup, -, -, htk, hsc⟩ := issue_spec h
  rcases hca with hbd | hcov
  · exact htk hbd
  · intro scope hmem
    obtain ⟨hgrd, hdel, hasks⟩ := hsc scope hmem
    exact hcov parent hup scope hgrd hdel hasks

/-- A linked token is exchanged under the grant it is linked to. -/
theorem eq_of_linked {store : Store} {id parent : String} (hlk : Linked store token id)
    (hkee : ∀ {jti row later}, store.taskTokens jti = some row →
      ex.store.taskTokens jti = some later → later.1 = row.1)
    (h : ex.parentId token = some parent) : parent = id := by
  unfold Exchange.parentId at h
  unfold Linked at hlk
  cases htk : token.task with
  | none =>
    rw [htk] at h hlk
    change token.grantId = _ at h
    rw [h] at hlk
    simpa using hlk
  | some =>
    rw [htk] at h hlk
    obtain ⟨_, hlk⟩ := hlk
    simp only [activeLink] at h
    split at h
    · cases h
    · next later _ hlat =>
      rw [Option.ite_none_right_eq_some, Option.some.injEq] at h
      exact h.2.symm.trans (hkee hlk hlat)

end Exchange

/-! ### Chains of exchanges -/

/-- Later tables: a grant keeps its resources and a task token its grant, for as long as they
exist. -/
structure KeepsResources (before after : Store) : Prop where
  resources : ∀ {id grant later}, before.grants id = some grant → after.grants id = some later →
    later.resources = grant.resources
  link : ∀ {jti row later}, before.taskTokens jti = some row → after.taskTokens jti = some later →
    later.1 = row.1

/-- A token was exchanged again and again, while the tables went on.  The list has the exchanges and
their subject tokens, the last one first. -/
inductive Exchanged (parseUrl : UrlParser) (first : TokenClaims) :
    List (Exchange × TokenClaims) → Store → TokenClaims → Prop
  | first (store : Store) : Exchanged parseUrl first [] store first
  | next {hops : List (Exchange × TokenClaims)} {store after : Store} {token issued : TokenClaims}
      {exchange : Exchange} :
    Exchanged parseUrl first hops store token → KeepsResources store exchange.store →
    exchange.issue parseUrl token = .ok (issued, after) →
    Exchanged parseUrl first ((exchange, token) :: hops) after issued

/-- The audience is inside the resources of the authorization behind the subject token of a hop, if
that names any. -/
def Within (aud : Finset String) (hop : Exchange × TokenClaims) : Prop :=
  ∀ grant, hop.1.parent hop.2 = some grant → grant.resources ≠ ∅ → aud ⊆ grant.resources

variable {parseUrl : UrlParser} {first token issued : TokenClaims} {store after : Store}
  {hops : List (Exchange × TokenClaims)} {ex : Exchange}

/-- The invariant of a chain: the grant behind the last token names its audience, and that is inside
what every authorization before it names. -/
theorem Exchanged.within (h : Exchanged parseUrl first hops store token) :
    (∀ hop ∈ hops, Within token.aud hop) ∧ (hops ≠ [] → token.aud ≠ ∅ ∧
      ∃ id row, Exchange.Linked store token id ∧ store.grants id = some row ∧
      row.resources = token.aud) := by
  induction h with
  | first => simp
  | @next hops _ _ token issued ex _ hkee his ih =>
    obtain ⟨parent, hup, -, haud, -⟩ := Exchange.issue_spec his
    refine ⟨List.forall_mem_cons.2 ⟨fun grant hgr hne => ?_, fun hop hmem grant hgr hne => ?_⟩,
      fun _ => Exchange.row_of_issue his⟩
    · cases hup.symm.trans hgr
      exact haud hne
    · -- the authorization of this exchange is the grant that the last one stored
      obtain ⟨hfu, id, row, hlk, hrow, hrs⟩ := ih.2 (List.ne_nil_of_mem hmem)
      obtain ⟨id', hid, hpar⟩ := Option.bind_eq_some_iff.1 hup
      obtain rfl := Exchange.eq_of_linked hlk hkee.link hid
      rw [hkee.resources hrow hpar, hrs] at haud
      exact (haud hfu).trans (ih.1 hop hmem grant hgr hne)

/-- In a chain of exchanges of any token, no token outlives a token before it or goes to an audience
outside an authorization before it; if every subject token carries what its grant can delegate, no
token has a scope that a token before it lacks. -/
theorem exchanges_narrow (h : Exchanged parseUrl first hops store issued) :
    (∀ hop ∈ hops, issued.exp ≤ hop.2.exp ∧ Within issued.aud hop) ∧
    ((∀ hop ∈ hops, hop.1.CarriesGrant hop.2) → ∀ hop ∈ hops, issued.scope ⊆ hop.2.scope) := by
  refine ⟨fun hop hmem => ⟨?_, h.within.1 hop hmem⟩, fun hcar => ?_⟩
  · induction h with
    | first => simp at hmem
    | next _ _ his ih =>
      obtain ⟨_, -, hexp, -⟩ := Exchange.issue_spec his
      rcases List.mem_cons.1 hmem with rfl | hmem
      · exact hexp
      · exact hexp.trans (ih hmem)
  · induction h with
    | first => simp
    | next _ _ his ih =>
      obtain ⟨hca, hbef⟩ := List.forall_mem_cons.1 hcar
      have hsub := Exchange.scope_subset his hca
      exact List.forall_mem_cons.2 ⟨hsub, fun hop hmem => hsub.trans (ih hbef hop hmem)⟩

/-! ### A token narrowed at refresh -/

/-- An access token of the grant with some of its scopes, as a refresh can narrow them. -/
def refreshedToken (scopes : Finset String) : TokenClaims :=
  { exp := 300, iat := 0, aud := {"https://api.example/"}, sub := "app", clientId := "app",
    jti := "jti", jkt := some "key", scope := scopes, authorizationDetails := [], act := none,
    mayAct := none, grantId := some "grant", task := none }

/-- An exchange by an agent that may read and write and names no scope. -/
def agentExchange (store : Store) (agent grantId jti : String) : Exchange :=
  { store
    now := seconds 1
    clock := seconds 1
    client := { id := agent, tokenBinding := .dpop, scopes := {"read", "write"}, resources := ∅,
                agent := some { AgentLimits.default with maxDelegationDepth := 2 } }
    proofKey := some "key"
    scope := none
    targets := ∅
    authorizationDetails := none
    accessTokenLifetime := seconds 300
    tenantCap := none
    grantIdClaim := true
    servers := [{ identifier := "https://api.example/", scopes := none }]
    permitted := fun _ => .ok ()
    freshGrantId := grantId
    freshRevision := "rev"
    freshJti := jti }

/-- What the agents of the example get. -/
def agentToken (grantId agent jti : String) (exp : ℤ) (act : Json) : TokenClaims :=
  { exp, iat := 1, aud := {"https://api.example/"}, sub := "app", clientId := agent, jti,
    jkt := some "key", scope := {"read", "write"}, authorizationDetails := [], act := some act,
    mayAct := none, grantId := some grantId, task := none }

/-- After one exchange. -/
def firstAgentToken : TokenClaims :=
  agentToken "child" "a" "jti2" 300 (.obj [("client_id", .str "a")])

/-- A token that a refresh narrowed to `read` is exchanged for one that can write. -/
theorem issue_widens_refreshed :
    ((AccessToken.new { readWriteGrant with scopes := {"read"} } {"https://api.example/"}
      (some "key") "jti" 0).withGrantIdWhen true).build = .ok (refreshedToken {"read"}) ∧
    (agentExchange exampleStore "a" "child" "jti2").Issues exampleUrl (refreshedToken {"read"})
      firstAgentToken ∧
    ¬firstAgentToken.scope ⊆ (refreshedToken {"read"}).scope :=
  ⟨by rfl, ⟨_, by rfl⟩, by decide⟩

theorem carriesGrant_of_scopes {ex : Exchange} {token : TokenClaims} {grant : Grant}
    (hup : ex.parent token = some grant) (h : grant.scopes ⊆ token.scope) :
    ex.CarriesGrant token := by
  refine .inr fun grant' hgr scope hsc _ _ => ?_
  cases hup.symm.trans hgr
  exact h hsc

/-- The grant of the first agent. -/
def agentGrant : Grant :=
  { Grant.new "child" "a" "rev" (seconds 1) with
    subject := some "app"
    scopes := {"read", "write"}
    resources := {"https://api.example/"}
    actorChain := [.obj [("client_id", .str "a")]]
    parent := some "grant"
    parentRevision := some "rev"
    claimedAt := some (seconds 1)
    expiresAt := some (seconds 300) }

/-- After two. -/
def secondAgentToken : TokenClaims :=
  agentToken "child2" "b" "jti3" 300
    (.obj [("act", .obj [("client_id", .str "a")]), ("client_id", .str "b")])

theorem KeepsResources.refl (store : Store) : KeepsResources store store where
  resources h h' := by cases h.symm.trans h'; rfl
  link h h' := by cases h.symm.trans h'; rfl

/-- The exchanges of two agents, one after the other. -/
def twoHops : List (Exchange × TokenClaims) :=
  [(agentExchange (exampleStore.insert agentGrant) "b" "child2" "jti3", firstAgentToken),
    (agentExchange exampleStore "a" "child" "jti2", refreshedToken {"read", "write"})]

/-- The first agent's exchange. -/
theorem issue_firstAgentToken : (agentExchange exampleStore "a" "child" "jti2").issue exampleUrl
    (refreshedToken {"read", "write"}) = .ok (firstAgentToken, exampleStore.insert agentGrant) := by
  rfl

/-- The second agent's exchange, on the tables the first one left. -/
theorem issue_secondAgentToken : ∃ after,
    (agentExchange (exampleStore.insert agentGrant) "b" "child2" "jti3").issue exampleUrl
      firstAgentToken = .ok (secondAgentToken, after) :=
  ⟨_, by rfl⟩

/-- A token with every scope of its grant is exchanged by one agent, and then by another. -/
theorem exchanges_narrow_twice :
    secondAgentToken.exp ≤ (refreshedToken {"read", "write"}).exp ∧
    secondAgentToken.aud ⊆ readWriteGrant.resources ∧ secondAgentToken.aud ⊆ agentGrant.resources ∧
    secondAgentToken.scope ⊆ firstAgentToken.scope ∧
    secondAgentToken.scope ⊆ (refreshedToken {"read", "write"}).scope := by
  obtain ⟨after, hsec⟩ := issue_secondAgentToken
  have hcha : Exchanged exampleUrl (refreshedToken {"read", "write"}) twoHops after
      secondAgentToken :=
    .next (.next (.first _) (.refl _) issue_firstAgentToken) (.refl _) hsec
  have hcar : ∀ hop ∈ twoHops, hop.1.CarriesGrant hop.2 :=
    List.forall_mem_cons.2 ⟨carriesGrant_of_scopes (rfl : _ = some agentGrant) (by decide),
      List.forall_mem_cons.2 ⟨carriesGrant_of_scopes (rfl : _ = some readWriteGrant) (by decide),
        by simp⟩⟩
  obtain ⟨hbou, hsco⟩ := exchanges_narrow hcha
  have hsco := hsco hcar
  obtain ⟨⟨-, haud⟩, ⟨hexp, haud'⟩, -⟩ :=
    And.imp_right List.forall_mem_cons.1 (List.forall_mem_cons.1 hbou)
  exact ⟨hexp, haud' readWriteGrant rfl (by decide), haud agentGrant rfl (by decide),
    hsco _ (.head _), hsco _ (.tail _ (.head _))⟩

end AsteriusIdp.Issuance
