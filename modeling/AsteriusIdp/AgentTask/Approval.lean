import AsteriusIdp.AgentTask.IssuancePolicy
import AsteriusIdp.AgentTask.Queue

/-!
# Tokens next to an approval

From the moment a task is approved, the access tokens of its tree are signed under the task and
stay within what was approved.  A token that is older than the task carries no task; it is judged by
its client, and only the client of the root is bound to the task by the approval.

* `bounded_step`: a token that was signed under a task stays within its approval.
* `approved_tokens`: an active token of the tree is within the approval, unless it is older and its
  client is under no task.
-/

namespace AsteriusIdp.AgentTask

open Fallible Transition Forest Entries
open Issuance (Task exampleUrl)

/-- A token is signed against the current rows of the tenant. -/
def Event.Checked : Event → Prop
  | .sign principals _ _ _ => ∃ rows : IssuanceRows,
      principals.currentPolicy = fun grant claims => (rows.currentPolicy grant claims).toOption
  | _ => True

/-- The interleavings in which every token is signed against the rows of the tenant. -/
def checkedTrees (parseUrl : UrlParser) : System Run Event :=
  (trees parseUrl).restrict fun _ e => e.Checked

/-! ### Approvals stay as they are -/

/-- No approved task is changed or removed, but for its end. -/
def KeepsTasks (tree tree' : Tree) : Prop :=
  ∀ t task, tree.tasks.lookup t = some task → ∃ task', tree'.tasks.lookup t = some task' ∧
    task'.permissions = task.permissions ∧ task'.expiresAt = task.expiresAt

theorem KeepsTasks.of_eq {tree tree' : Tree} (h : tree'.tasks = tree.tasks) :
    KeepsTasks tree tree' := fun _ task htk => ⟨task, h ▸ htk, rfl, rfl⟩

/-- The task that an approval records. -/
theorem tasks_approve {tree tree' : Tree} {parseUrl : UrlParser} {held : Bool}
    {t : String} {approval : Tree.Approval} {clock : ℤ}
    (h : tree.approve parseUrl held t approval clock = .ok tree') :
    tree.tasks.lookup t = none ∧ tree'.tasks = tree.tasks.insert t
      { id := t, rootGrantId := approval.root.id, approvalRevision := tree.revision + 1
        expiresAt := approval.expiry, revokedAt := none, permissions := approval.permissions } := by
  simp only [Tree.approve, bind_ok, refuseIf_ok, pure_ok] at h
  obtain ⟨_, -, -, -, -, -, _, -, -, -, -, hcf, rfl⟩ := h
  rw [not_or] at hcf
  refine ⟨by simpa [Entries.contains] using hcf.1, ?_⟩
  unfold Tree.activate
  extract_lets root permissions task recorded
  rw [(foldl_bind (recorded.bind root t) t (tree.descendants root)).2.2.2.1, tasks_bind]

section Steps

variable {parseUrl : UrlParser} {s s' : Run} {e : Event}

theorem tasks_step (h : (trees parseUrl).step s e s') (hs : s.tree.Shaped) :
    KeepsTasks s.tree s'.tree := by
  cases transacts_of_step h with
  | rolledBack => exact .of_eq rfl
  | created htr => exact .of_eq (inserted_of_insertGrant hs htr).tasks
  | signed _ htr =>
    rcases (signAccess_ok htr).2 with
      ⟨-, rfl⟩ | ⟨stored, -, ⟨-, rfl⟩ | ⟨-, hins⟩, -, -, rfl⟩
    · exact .of_eq rfl
    · exact .of_eq rfl
    · exact .of_eq (inserted_of_insertGrant hs hins).tasks
  | @approved _ taskId _ _ _ _ htr =>
    obtain ⟨hnew, htk⟩ := tasks_approve htr
    intro t task hta
    have hne : t ≠ taskId := by
      rintro rfl
      cases hnew.symm.trans hta
    exact ⟨task, by rw [htk, lookup_insert_of_ne _ _ hne, hta], rfl, rfl⟩
  | revoked htr =>
    obtain ⟨-, -, -, -, -, ⟨-, -, htk⟩ | ⟨_, _, -, -, htk, -⟩⟩ := revokeCore_ok htr
    · exact .of_eq htk
    · intro _ task hta
      rw [htk]
      split_ifs
      · simp only [Tree.endTask, lookup_updateWhere, hta, Option.map_some]
        exact ⟨_, rfl, by split_ifs <;> rfl, by split_ifs <;> rfl⟩
      · exact ⟨task, hta, rfl, rfl⟩
  | stamped => exact .of_eq rfl
  | cleaned clock =>
    rcases cleanupWithdrawals_cases s.tree clock with heq | ⟨_, _, -, heq⟩
    · exact .of_eq (by simp [Run.next, heq])
    · exact .of_eq (by simp only [Run.next, heq]; rfl)
  | stated => exact .of_eq rfl

/-! ### Tokens under a task -/

/-- A token that was signed under a task belongs to a grant of a task, and stays within the
approval of that task. -/
def Bounded (tree : Tree) (x : String × TokenClaims) : Prop :=
  x.2.task.isSome → ∃ t task, tree.bindings.lookup x.1 = some t ∧
    tree.tasks.lookup t = some task ∧ Within task.permissions task.expiresAt x.2

variable {tree tree' : Tree} {grant : Grant} {claims signed : TokenClaims} {clock : ℤ}

theorem Bounded.step {x : String × TokenClaims} (hx : Bounded tree x) (hgw : Grows tree tree')
    (htk : KeepsTasks tree tree') : Bounded tree' x := by
  intro hso
  obtain ⟨t, task, ht, hta, hwi⟩ := hx hso
  obtain ⟨task', hta', hpm, hexp⟩ := htk t task hta
  exact ⟨t, task', hgw.bindings _ _ ht, hta', hpm ▸ hexp ▸ hwi⟩

theorem signFenced_of_signAccess {store after : Issuance.Store} {task : Task}
    (h : Issuance.signAccess store grant claims clock = .ok (signed, after))
    (htk : store.tasks (grant.parent.getD grant.id) = some task) :
    Issuance.signFenced store task grant claims clock = .ok (signed, after) := by
  rwa [Issuance.signAccess, htk] at h

/-- A stored grant that is signed for under a task has the parent that the request says. -/
theorem parent_of_signFenced {store after : Issuance.Store} {task : Task} {row : Grant}
    (h : Issuance.signFenced store task grant claims clock = .ok (signed, after))
    (hrow : store.grants grant.id = some row) : row.parent = grant.parent := by
  have hhl : store.holds grant = true := by rw [Issuance.Store.holds, hrow]; rfl
  simp only [Issuance.signFenced, Issuance.Store.claim, hhl, if_true, bind_ok, okOr_ok,
    pure_ok] at h
  obtain ⟨_, -, _, -, _, -, _, ⟨_, hrow', -, -, rfl⟩, _, hlk, -⟩ := h
  cases hrow.symm.trans hrow'
  obtain ⟨_, _, -, hloc, hup, -⟩ := Issuance.lockIssuanceAuthority_spec hlk
  cases (Function.update_self ..).symm.trans hloc
  exact hup

/-- The grant of a token is bound as the grant it was found by. -/
theorem lookup_bindings_signAccess (hs : tree.Shaped) {principals : Principals} {t : String}
    {task : Task} (h : tree.signAccess principals grant claims clock = .ok (signed, tree'))
    (ht : tree.bindings.lookup (grant.parent.getD grant.id) = some t)
    (htk : tree.taskOf (grant.parent.getD grant.id) = some task) :
    tree'.bindings.lookup grant.id = some t := by
  obtain ⟨⟨_, hsg⟩, ⟨hno, -⟩ | ⟨_, -, hsto, -, -, rfl⟩⟩ := signAccess_ok h
  · cases hno.symm.trans htk
  · cases hup : grant.parent with
    | none =>
      rw [hup] at ht
      rcases hsto with ⟨-, rfl⟩ | ⟨-, hins⟩
      · exact ht
      · exact ((inserted_of_insertGrant hs hins).grows hs).bindings _ _ ht
    | some p =>
      rw [hup, Option.getD_some] at ht
      rcases hsto with ⟨hsto, rfl⟩ | ⟨-, hins⟩
      · obtain ⟨_, hrow⟩ := Option.isSome_iff_exists.1 hsto
        have hro := parent_of_signFenced (signFenced_of_signAccess hsg htk) hrow
        refine hs.forest.inherits grant.id p t ?_ ht
        rw [Tree.up, hrow, Option.map_some, hro, hup]
      · rw [(inserted_of_insertGrant hs hins).bindings, Function.update_self, hup,
          Option.bind_some, ht]

/-- The token that was just signed is within the approval of its task. -/
theorem bounded_signAccess (hs : tree.Shaped) {principals : Principals} {rows : IssuanceRows}
    (hpol : principals.currentPolicy = fun grant claims =>
      (rows.currentPolicy grant claims).toOption)
    (hcls : claims.task = none)
    (h : tree.signAccess principals grant claims clock = .ok (signed, tree'))
    (htk : KeepsTasks tree tree') : Bounded tree' (grant.id, signed) := by
  intro hso
  obtain ⟨⟨_, hsg⟩, -⟩ := signAccess_ok h
  cases hta : tree.taskOf (grant.parent.getD grant.id) with
  | none =>
    rcases (signed_of_signAccess hsg).2 with ⟨-, hsm, -⟩ | ⟨task, hta', -⟩
    · rw [hsm, hcls] at hso
      cases hso
    · cases hta.symm.trans hta'
  | some task =>
    have hlk := hta
    rw [Tree.taskOf, Option.bind_eq_some_iff] at hlk
    obtain ⟨t, ht, hrow⟩ := hlk
    have hwi := within_of_signFenced hpol (signFenced_of_signAccess hsg hta)
    obtain ⟨task', hta', hpm, hexp⟩ := htk t task hrow
    exact ⟨t, task', lookup_bindings_signAccess hs h ht hta, hta', hpm ▸ hexp ▸ hwi⟩

theorem bounded_step (h : (checkedTrees parseUrl).step s e s') (hs : s.tree.Shaped)
    (his : ∀ x ∈ s.issued, Bounded s.tree x) : ∀ x ∈ s'.issued, Bounded s'.tree x := by
  obtain ⟨hst, hchk⟩ := h
  have hgw := grows_step hst hs
  have htk := tasks_step hst hs
  intro x hx
  rcases issued_cases hst hx with hold | ⟨_, _, _, _, _, _, rfl, rfl, hcls, hsg, rfl⟩
  · exact (his x hold).step hgw htk
  · obtain ⟨_, hpol⟩ := hchk
    exact bounded_signAccess hs hpol hcls hsg htk

end Steps

/-! ### Every state after an approval -/

section Runs

variable {parseUrl : UrlParser} {s₀ s s' : Run} {e : Event} {ls : List Event}
  {taskId : String} {approval : Tree.Approval}

/-- What is known in every run of the tokens that were signed. -/
structure Run.Recorded (s : Run) : Prop where
  shaped : s.tree.Shaped
  tracked : ∀ x ∈ s.issued, Tracked s.tree x
  bounded : ∀ x ∈ s.issued, Bounded s.tree x

theorem recorded_init : Run.init.Recorded :=
  ⟨shaped_init, fun _ hx => (List.not_mem_nil hx).elim, fun _ hx => (List.not_mem_nil hx).elim⟩

theorem recorded_step (h : (checkedTrees parseUrl).step s e s') (hs : s.Recorded) : s'.Recorded :=
  ⟨shape_step h.1 hs.shaped, issued_step h.1 hs.shaped hs.tracked,
    bounded_step h hs.shaped hs.bounded⟩

/-- What the run since an approval has kept; `s₀` is the state before it. -/
structure SinceApproval (s₀ s : Run) (taskId : String) (approval : Tree.Approval) : Prop where
  bound : s.tree.bindings.lookup approval.root.id = some taskId
  task : ∃ task, s.tree.tasks.lookup taskId = some task ∧
    task.permissions = approval.permissions ∧ task.expiresAt = approval.expiry
  client : approval.root.client ∈ s.tree.taskClients
  signed : ∀ x ∈ s.issued, x ∈ s₀.issued ∨ x.2.task.isSome ∨
    ¬Under s.tree.up 10 x.1 approval.root.id

theorem sinceApproval_approve (hs : s₀.tree.Shaped) {held : Bool} {clock : ℤ} {tree : Tree}
    (halw : Event.Allowed s₀ (.approve held taskId approval clock))
    (h : s₀.tree.approve parseUrl held taskId approval clock = .ok tree) :
    SinceApproval s₀ { s₀ with tree } taskId approval := by
  have had := activated_of_approve hs halw h
  obtain ⟨_, hks⟩ := hs.forest.rooted _ _ had.top
  have htk := (tasks_approve h).2 ▸ lookup_insert_self s₀.tree.tasks taskId _
  refine ⟨?_, ⟨_, htk, rfl, rfl⟩, ?_, fun x hx => .inl hx⟩
  · rw [had.bindings, had.free, Option.none_or, if_pos ((descends_iff hs).2 (.refl hks))]
  · rw [had.clients]
    exact Finset.mem_insert_self _ _

/-- Below a grant of a task, every token is signed under a task. -/
theorem task_of_signAccess {tree tree' : Tree} (hs : tree.Shaped) {principals : Principals}
    {grant : Grant} {claims signed : TokenClaims} {clock : ℤ} {a t : String}
    (h : tree.signAccess principals grant claims clock = .ok (signed, tree'))
    (ha : tree.bindings.lookup a = some t) (hun : Under tree'.up 10 grant.id a) :
    signed.task.isSome := by
  obtain ⟨⟨_, hsg⟩, hcas⟩ := signAccess_ok h
  rcases (signed_of_signAccess hsg).2 with ⟨hno, -, hfr, -⟩ | ⟨task, -, hsgd⟩
  · -- outside a task nothing is stored, so the grant was below the other one before
    rcases hcas with ⟨-, rfl⟩ | ⟨_, hso, -⟩
    · have hbd := hs.forest.label_of_under hun ha
      have htk := hs.taskOf_isSome (by rw [hbd]; rfl)
      rw [show tree'.taskOf grant.id = none from hfr] at htk
      cases htk
    · rw [show tree.taskOf (grant.parent.getD grant.id) = none from hno] at hso
      cases hso
  · rw [hsgd]
    rfl

theorem sinceApproval_step (h : (checkedTrees parseUrl).step s e s') (hs : s.Recorded)
    (hsnc : SinceApproval s₀ s taskId approval) : SinceApproval s₀ s' taskId approval := by
  have hgw := grows_step h.1 hs.shaped
  obtain ⟨_, htk, hpm, hexp⟩ := hsnc.task
  obtain ⟨task', htk', hpm', hexp'⟩ := tasks_step h.1 hs.shaped _ _ htk
  refine ⟨hgw.bindings _ _ hsnc.bound,
    ⟨task', htk', hpm'.trans hpm, hexp'.trans hexp⟩,
    hgw.clients hsnc.client, fun x hx => ?_⟩
  rcases issued_cases h.1 hx with hold | ⟨_, grant, _, _, _, _, -, rfl, -, hsg, rfl⟩
  · obtain ⟨_, hrow⟩ := (hs.tracked x hold).stored
    refine (hsnc.signed x hold).imp_right fun hrs => hrs.imp_right fun hout hun => ?_
    exact hout ((hgw.under_iff hs.shaped hrow).1 hun)
  · by_cases hun : Under s'.tree.up 10 grant.id approval.root.id
    · exact .inr (.inl (task_of_signAccess hs.shaped hsg hsnc.bound hun))
    · exact .inr (.inr hun)

theorem sinceApproval_of_path (h : (checkedTrees parseUrl).Path s ls s') (hs : s.Recorded)
    (hsnc : SinceApproval s₀ s taskId approval) :
    s'.Recorded ∧ SinceApproval s₀ s' taskId approval :=
  h.invariant (I := fun s => s.Recorded ∧ SinceApproval s₀ s taskId approval)
    (fun _ _ _ hst hi => ⟨recorded_step hst hi.1, sinceApproval_step hst hi.1 hi.2⟩)
    ⟨hs, hsnc⟩

/-- In every state after a task was approved, an access token of its tree that the status check
reports active is within the approval; or it was signed before the approval, without a task, for a
client that is under no task, and so not for the client of the root. -/
theorem approved_tokens {held : Bool} {clock : ℤ} {tree : Tree}
    (hrun : (checkedTrees parseUrl).Path Run.init ls s₀)
    (hallowed : Event.Allowed s₀ (.approve held taskId approval clock))
    (happrove : s₀.tree.approve parseUrl held taskId approval clock = .ok tree) :
    ∀ ms s, (checkedTrees parseUrl).Path { s₀ with tree } ms s → ∀ x ∈ s.issued,
      Under s.tree.up 10 x.1 approval.root.id → ∀ principals clock,
      s.tree.tokenActive principals x.2 clock →
      Within approval.permissions approval.expiry x.2 ∨
      (x ∈ s₀.issued ∧ x.2.task = none ∧ x.2.clientId ∉ s.tree.taskClients ∧
        x.2.clientId ≠ approval.root.client) := by
  intro ms s hlat x hx hun principals clock' hact
  have hs₀ : s₀.Recorded := hrun.invariant (fun _ _ _ hst => recorded_step hst) recorded_init
  have hst : (checkedTrees parseUrl).step s₀ (.approve held taskId approval clock)
      { s₀ with tree } := by
    refine ⟨⟨hallowed, ?_⟩, trivial⟩
    simp [Run.next, happrove]
  obtain ⟨hs, hsnc⟩ := sinceApproval_of_path hlat (recorded_step hst hs₀)
    (sinceApproval_approve hs₀.shaped hallowed happrove)
  cases htk : x.2.task with
  | some t =>
    -- the token is within the approval of the task of its grant, which is this one
    obtain ⟨t, task, ht, hlk, hwi⟩ := hs.bounded x hx (by rw [htk]; rfl)
    have hbd := hs.shaped.forest.label_of_under hun hsnc.bound
    cases ht.symm.trans hbd
    obtain ⟨task', hlk', hpm, hexp⟩ := hsnc.task
    cases hlk.symm.trans hlk'
    exact .inl (hpm ▸ hexp ▸ hwi)
  | none =>
    have hcli : x.2.clientId ∉ s.tree.taskClients := by
      simpa [Tree.tokenActive, htk] using hact
    have hold : x ∈ s₀.issued := by
      rcases hsnc.signed x hx with hold | hso | hout
      · exact hold
      · rw [htk] at hso
        cases hso
      · exact absurd hun hout
    refine .inr ⟨hold, rfl, hcli, fun heq => hcli ?_⟩
    rw [heq]
    exact hsnc.client

end Runs

/-! ### Tokens of the task with one delegate -/

/-- The rows of a tenant where the client of the root may read at the API. -/
def readRows : IssuanceRows :=
  { kind := .refreshToken
    accessTokenLifetime := some (seconds 300)
    tenantLimits := none
    clients := fun id => if id = "app" then some
      { scopes := {"read"}, authorizationDetailsTypes := ∅, grantTypes := {.refreshToken}
        agent := none } else none
    schemas := fun _ => none
    resourceServers := fun id => if id = "https://api.example/" then some
      { scopes := none, tokenLifetime := none } else none
    implicitResources := [] }

/-- The principals, with the policy of those rows. -/
def readPrincipals : Principals :=
  { clients := fun id => some
      { id, tokenBinding := .dpop, scopes := {"read"}, resources := ∅, agent := none }
    principalsActive := fun _ _ => true
    currentPolicy := fun grant claims => (readRows.currentPolicy grant claims).toOption }

/-- The root as it is under the task. -/
def taskGrant : Grant :=
  { rootGrant with
    scopes := {"read"}, expiresAt := some (seconds 60)
    task := some { taskId := "task", rootGrantId := "grant", approvalRevision := 1
                   expiresAt := seconds 60 } }

/-- The claims of an access token for it. -/
def taskToken : TokenClaims :=
  { exp := 60, iat := 0, aud := {"https://api.example/"}, sub := "app", clientId := "app"
    jti := "task-jti", jkt := none, scope := {"read"}, authorizationDetails := [], act := none
    mayAct := none, grantId := none, task := none }

/-- A token of the root that is signed after the approval is active and within it. -/
theorem approved_tokens_root : ∃ s₀ tree s signed,
    (checkedTrees exampleUrl).Path Run.init
        [.create rootGrant, .create (delegatedGrant "child" "grant")] s₀ ∧
      s₀.tree.approve exampleUrl true "task" readTask 0 = .ok tree ∧
      (checkedTrees exampleUrl).Path { s₀ with tree } [.sign readPrincipals taskGrant taskToken 1]
        s ∧
      ("grant", signed) ∈ s.issued ∧ s.tree.tokenActive readPrincipals signed 2 ∧
      Within readTask.permissions readTask.expiry signed := by
  have hrun : ∃ s₀ tree s signed,
      (checkedTrees exampleUrl).Path Run.init
        [.create rootGrant, .create (delegatedGrant "child" "grant")] s₀ ∧
      Event.Allowed s₀ (.approve true "task" readTask 0) ∧ s₀.issued = [] ∧
      s₀.tree.approve exampleUrl true "task" readTask 0 = .ok tree ∧
      (checkedTrees exampleUrl).Path { s₀ with tree } [.sign readPrincipals taskGrant taskToken 1]
        s ∧
      ("grant", signed) ∈ s.issued ∧ Under s.tree.up 10 "grant" "grant" ∧
      s.tree.tokenActive readPrincipals signed 2 := by
    refine ⟨_, _, _, _, .cons ⟨⟨trivial, rfl⟩, trivial⟩ (.cons ⟨⟨trivial, rfl⟩, trivial⟩ (.nil _)),
      ?_, rfl, rfl, .cons ⟨⟨rfl, rfl⟩, readRows, rfl⟩ (.nil _), List.mem_singleton_self _,
      ⟨["grant"], rfl, by decide⟩, by rfl⟩
    intro _ hrow
    cases hrow
    rfl
  obtain ⟨s₀, tree, s, signed, hp, halw, hno, hap, hlat, hmem, hun, hact⟩ :=
    hrun
  refine ⟨s₀, tree, s, signed, hp, hap, hlat, hmem, hact, ?_⟩
  rcases approved_tokens hp halw hap _ _ hlat _ hmem hun readPrincipals 2
    hact with hwi | ⟨hold, -⟩
  · exact hwi
  · rw [hno] at hold
    cases hold

/-- A delegate that may also write. -/
def writingGrant : Grant := { delegatedGrant "child" "grant" with scopes := {"read", "write"} }

/-- The claims of an access token for it. -/
def writingToken : TokenClaims := { delegateToken with scope := {"read", "write"} }

/-- A delegate of another client keeps a token that can write next to an approval for reading. -/
theorem broader_token_stays_active : ∃ s,
    (checkedTrees exampleUrl).Path Run.init
        [.create rootGrant, .create writingGrant, .sign noPrincipals writingGrant writingToken 0,
          .approve true "task" readTask 0] s ∧
      ("child", writingToken) ∈ s.issued ∧ Under s.tree.up 10 "child" readTask.root.id ∧
      s.tree.tokenActive noPrincipals writingToken 1 ∧
      ¬writingToken.scope ⊆ readTask.permissions.scopes := by
  refine ⟨_, .cons ⟨⟨trivial, rfl⟩, trivial⟩ (.cons ⟨⟨trivial, rfl⟩, trivial⟩
    (.cons ⟨⟨rfl, rfl⟩, { readRows with accessTokenLifetime := none }, rfl⟩
      (.cons ⟨⟨?_, rfl⟩, trivial⟩ (.nil _)))), List.mem_singleton_self _,
    ⟨["child", "grant"], rfl, by decide⟩, by rfl, by decide⟩
  intro _ hrow
  cases hrow
  rfl

end AsteriusIdp.AgentTask
