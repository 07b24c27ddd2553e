import AsteriusIdp.Issuance.ExchangeSound

/-!
# Delegation chains

A token that was exchanged names the parties acting in nested `act` claims, the current one
outermost.  The grant behind a token stores them as a list: an exchange puts its client in front of
the list of the parent grant, and the builder folds the list into the claim.

* `actors_actorClaim` : unfolding the claim of a chain gives the chain back.
* `recorded_of_sign` : the tables hold, for every token that is signed, the chain it was rendered
  from.
* `delegation_trace` : along any number of exchanges the claim is the one of the first token with
  the clients of the exchanges in front, the last one first.

A client that may impersonate leaves no trace in the claim, and its own limit on the depth is not
applied (`impersonation_not_traced`).
-/

namespace AsteriusIdp

open Fallible Entries

/-! ### The nested claim and the list -/

mutual

/-- The parties of a nested `act` claim, the outermost one first. -/
def flattenAct : Json → List Json
  | .obj members => .obj (Entries.erase members "act") :: flattenMembers members
  | .null | .bool _ | .num _ | .str _ | .arr _ => []

/-- The parties nested in the members of one. -/
def flattenMembers : List (String × Json) → List Json
  | [] => []
  | (name, value) :: members => if "act" = name then flattenAct value else flattenMembers members

end

/-- The parties a token names. -/
def actors (act : Option Json) : List Json := act.elim [] flattenAct

theorem flattenMembers_eq (ms : Object) : flattenMembers ms = actors (lookup ms "act") := by
  induction ms with
  | nil => rfl
  | cons e ms ih =>
    rw [flattenMembers, lookup_cons]
    split_ifs
    · rfl
    · exact ih

/-- One more actor around those already nested. -/
theorem actors_nestActor {nested next : Option Json} {actor : Json}
    (h : nestActor nested actor = .ok next) : actors next = actor :: actors nested := by
  simp only [nestActor, bind_ok, okOr_ok, Json.asObject_eq_some, refuseIf_ok, pure_ok] at h
  obtain ⟨ms, rfl, -, hact, rfl⟩ := h
  have hno : lookup ms "act" = none := by
    simpa [contains] using hact
  cases nested with
  | none =>
    simp [actors, flattenAct, flattenMembers_eq, hno, erase_of_lookup hno]
  | some =>
    simp [actors, flattenAct, flattenMembers_eq, erase_insert_self, erase_of_lookup hno]

variable {chain : List Json} {act : Option Json}

theorem actors_foldlM (h : chain.reverse.foldlM nestActor none = .ok act) : actors act = chain := by
  induction chain generalizing act with
  | nil =>
    cases h
    rfl
  | cons actor prior ih =>
    rw [List.reverse_cons, List.foldlM_append, bind_ok] at h
    obtain ⟨_, hpri, hla⟩ := h
    rw [List.foldlM_cons, bind_ok] at hla
    obtain ⟨_, hnx, hdn⟩ := hla
    cases hdn
    rw [actors_nestActor hnx, ih hpri]

theorem actors_actorClaim
    (h : actorClaim chain = .ok act) : actors act = chain ∧ chain.length ≤ 8 := by
  simp only [actorClaim, bind_ok, refuseIf_ok, not_lt] at h
  obtain ⟨-, hlen, hfo⟩ := h
  exact ⟨actors_foldlM hfo, hlen⟩

namespace Issuance

/-! ### What the tables record about a token -/

/-- The tables hold the grant a token was minted from, and the claim is the one of its chain. -/
def Recorded (store : Store) (token : TokenClaims) : Prop :=
  ∃ id grant, store.grants id = some grant ∧ actorClaim grant.actorChain = .ok token.act ∧
    Exchange.Linked store token id

/-- Later tables: a grant keeps its chain and a task token its grant, for as long as they exist. -/
structure Follows (before after : Store) : Prop where
  chain : ∀ {id grant later}, before.grants id = some grant → after.grants id = some later →
    later.actorChain = grant.actorChain
  link : ∀ {jti row later}, before.taskTokens jti = some row → after.taskTokens jti = some later →
    later.1 = row.1

variable {store after : Store} {token : TokenClaims} {ex : Exchange}
  {parseUrl : UrlParser}

/-- A token that is signed for a grant is recorded under it. -/
theorem recorded_of_sign {builder : AccessToken} {claims signed : TokenClaims} {clock : ℤ}
    (hbu : builder.build = .ok claims)
    (hrow : ∀ row, store.grants builder.grant.id = some row →
      row.actorChain = builder.grant.actorChain)
    (h : signAccess store builder.grant claims clock = .ok (signed, after)) :
    Recorded after signed := by
  obtain ⟨-, -, -, -, -, -, -, -, -, hact⟩ := AccessToken.build_spec hbu
  obtain ⟨hlk, row, _, hsto, haft⟩ := Exchange.linked_of_sign hbu h
  refine ⟨_, _, haft, ?_, hlk⟩
  have hchn : row.actorChain = builder.grant.actorChain := hsto.elim (hrow row) fun heq => heq ▸ rfl
  rw [hchn, hact, (signAccess_spec h).2.2.2.2]

variable {ceiling : Ceiling}

/-- The chain an exchange starts from is the one its subject token names. -/
theorem Recorded.subject (hrec : Recorded store token) (hfol : Follows store ex.store)
    (h : ex.subject token = .ok ceiling) : actors token.act = ceiling.chain := by
  obtain ⟨id, grant, hgr, hact, hlk⟩ := hrec
  obtain ⟨parent, hid, hup, -, -, -, -, hchn⟩ := Exchange.subject_spec h
  have hsm : ceiling.parent = id := Exchange.eq_of_linked hlk hfol.link hid
  rw [hchn, hfol.chain hgr (hsm ▸ hup)]
  exact (actors_actorClaim hact).1

/-! ### One exchange -/

/-- How a client is named in the chain. -/
def actor (client : Client) : Json := .obj [("client_id", .str client.id)]

/-- The clients of some exchanges that are named in the chain. -/
def trace (clients : List Client) : List Json :=
  (clients.filter fun client => !client.limits.impersonation).map actor

theorem Exchange.chain_spec {chain : List Json} (h : ex.chain ceiling = .ok chain) :
    chain = trace [ex.client] ++ ceiling.chain ∧
    (ex.client.limits.impersonation = false →
      chain.length ≤ ex.client.limits.maxDelegationDepth) := by
  unfold Exchange.chain at h
  split_ifs at h with himp
  · cases h
    simp [trace, himp]
  · simp only [extendChain, bind_ok, refuseIf_ok, pure_ok, not_lt] at h
    obtain ⟨-, -, -, hdep, rfl⟩ := h
    exact ⟨by simp [trace, himp, actor], fun _ => by simpa using hdep⟩

/-- What an exchange makes of the claim, and that it is recorded like the one before. -/
theorem Recorded.issue {issued : TokenClaims} (hrec : Recorded store token)
    (hfol : Follows store ex.store) (h : ex.issue parseUrl token = .ok (issued, after)) :
    Recorded after issued ∧ actors issued.act = trace [ex.client] ++ actors token.act ∧
    (ex.client.limits.impersonation = false →
      (actors issued.act).length ≤ ex.client.limits.maxDelegationDepth) ∧
    (actors issued.act).length ≤ 8 := by
  simp only [Exchange.issue, bind_ok, orFail_ok] at h
  obtain ⟨-, -, -, -, _, hce, chain, hchn, _, -, _, -, _, -, ⟨grant, _⟩, hpp, _, -, hmt⟩ := h
  obtain ⟨-, -, -, -, hgr, -⟩ := prepare_spec hpp
  obtain ⟨hchn, hdep⟩ := Exchange.chain_spec hchn
  obtain ⟨hlk, _, hrow⟩ := Exchange.row_of_mint hmt
  simp only [Exchange.mint, bind_ok, orFail_ok] at hmt
  obtain ⟨-, -, _, hcls, _, -, hsgd⟩ := hmt
  obtain ⟨-, -, -, -, -, -, -, -, -, hact⟩ := AccessToken.build_spec hcls
  change actorClaim grant.actorChain = _ at hact
  rw [← (signAccess_spec hsgd).2.2.2.2] at hact
  obtain ⟨hac, hlen⟩ := actors_actorClaim hact
  rw [hrec.subject hfol hce, hac, hgr]
  exact ⟨⟨_, _, hrow, hact, hlk⟩, hchn, hdep, hgr ▸ hlen⟩

/-! ### Any number of exchanges -/

/-- A token was minted and then exchanged by some clients, the last one first; meanwhile the tables
went on. -/
inductive Delegated (parseUrl : UrlParser) (first : TokenClaims) :
    List Client → Store → TokenClaims → Prop
  | minted {builder : AccessToken} {store after : Store} {claims : TokenClaims} {clock : ℤ} :
    builder.build = .ok claims →
    (∀ row, store.grants builder.grant.id = some row →
      row.actorChain = builder.grant.actorChain) →
    signAccess store builder.grant claims clock = .ok (first, after) →
    Delegated parseUrl first [] after first
  | exchanged {clients : List Client} {store after : Store} {token issued : TokenClaims}
      {exchange : Exchange} :
    Delegated parseUrl first clients store token → Follows store exchange.store →
    exchange.issue parseUrl token = .ok (issued, after) →
    Delegated parseUrl first (exchange.client :: clients) after issued

theorem Delegated.recorded {first : TokenClaims} {clients : List Client}
    (h : Delegated parseUrl first clients store token) :
    Recorded store token ∧ actors token.act = trace clients ++ actors first.act := by
  induction h with
  | minted hbu hrow hsgd => exact ⟨recorded_of_sign hbu hrow hsgd, rfl⟩
  | @exchanged clients _ _ _ _ ex _ hfol his ih =>
    obtain ⟨hrec, hact, -⟩ := ih.1.issue hfol his
    have htra : trace (ex.client :: clients) = trace [ex.client] ++ trace clients := by
      rw [trace, trace, trace, ← List.map_append, ← List.filter_append, List.singleton_append]
    rw [hact, ih.2, htra, List.append_assoc]
    exact ⟨hrec, rfl⟩

/-- **The delegation history of a token.**  After any number of exchanges, one more by a client
that may not impersonate puts that client in front of exactly the actors of the subject token, and
stays within its depth; one by a client that may impersonate changes nothing.  So the actors of the
token are the exchanging clients, the last one first, followed by those of the first token. -/
theorem delegation_trace {first issued : TokenClaims} {clients : List Client}
    (h : Delegated parseUrl first clients store token) (hfollows : Follows store ex.store)
    (hissue : ex.issue parseUrl token = .ok (issued, after)) :
    (ex.client.limits.impersonation = false →
      actors issued.act = actor ex.client :: actors token.act ∧
      (actors issued.act).length ≤ ex.client.limits.maxDelegationDepth) ∧
    (ex.client.limits.impersonation = true → actors issued.act = actors token.act) ∧
    (actors issued.act).length ≤ 8 ∧
    actors issued.act = trace (ex.client :: clients) ++ actors first.act := by
  obtain ⟨-, hact, hdep, hlen⟩ := h.recorded.1.issue hfollows hissue
  refine ⟨fun hnot => ⟨?_, hdep hnot⟩, fun himp => ?_, hlen,
    (Delegated.exchanged h hfollows hissue).recorded.2⟩
  · rw [hact]
    simp [trace, hnot]
  · rw [hact]
    simp [trace, himp]

/-- The tables do not change between two steps of an example. -/
theorem Follows.refl (store : Store) : Follows store store where
  chain h h' := by cases h.symm.trans h'; rfl
  link h h' := by cases h.symm.trans h'; rfl

/-- The first token of the examples is minted from its grant. -/
theorem delegated_refreshedToken : Delegated exampleUrl (refreshedToken {"read", "write"}) []
    exampleStore (refreshedToken {"read", "write"}) :=
  @Delegated.minted exampleUrl _
    ((AccessToken.new readWriteGrant {"https://api.example/"} (some "key") "jti" 0).withGrantIdWhen
      true)
    exampleStore _ (refreshedToken {"read", "write"}) (seconds 1) (by rfl)
    (by rintro _ ⟨⟩; rfl) (by rfl)

/-- Two agents, one after the other. -/
theorem delegation_trace_twice :
    actors secondAgentToken.act =
      [.obj [("client_id", .str "b")], .obj [("client_id", .str "a")]] := by
  obtain ⟨_, hsec⟩ := issue_secondAgentToken
  have hfst := delegated_refreshedToken.exchanged (.refl _) issue_firstAgentToken
  exact (delegation_trace hfst (.refl _) hsec).2.2.2

/-- An exchange by an agent that may impersonate. -/
def impersonatingExchange : Exchange :=
  let exchange := agentExchange exampleStore "a" "child" "jti2"
  { exchange with
    client := { exchange.client with
      agent := some { AgentLimits.default with impersonation := true } } }

/-- The agent is not named in the token it gets. -/
theorem impersonation_not_traced :
    Delegated exampleUrl (refreshedToken {"read", "write"}) [] impersonatingExchange.store
      (refreshedToken {"read", "write"}) ∧ ∃ issued after,
      impersonatingExchange.issue exampleUrl (refreshedToken {"read", "write"}) =
        .ok (issued, after) ∧ actors issued.act ≠ actor impersonatingExchange.client ::
        actors (refreshedToken {"read", "write"}).act :=
  ⟨delegated_refreshedToken, { firstAgentToken with act := none }, _, by rfl, by decide⟩

end Issuance

end AsteriusIdp
