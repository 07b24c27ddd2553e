import AsteriusIdp.Domain.Grant

/-!
# Clients and the limits of agents

What issuance reads of a client registration.  An agent is a client that acts for a person; the
tenant bounds its scopes, audiences, lifetimes and delegations.
-/

namespace AsteriusIdp

/-- How the tokens of a client are bound to their holder. -/
inductive TokenBinding where
  | dpop
  | certificate
  | bearer
  deriving DecidableEq

/-- What a tenant allows an agent. -/
structure AgentLimits where
  /-- The audiences it may name, or any. -/
  audiences : Option (Finset String)
  /-- The scopes it may hold, or any. -/
  scopes : Option (Finset String)
  maxDelegationDepth : ℕ
  /-- Its delegations leave no trace in the `act` chain. -/
  impersonation : Bool
  /-- Its tokens may be exchanged by somebody else. -/
  exchangeable : Bool
  accessTokenTtlCap : Option ℤ
  humanApprovalScopes : Finset String

/-- The limits of a client that is not an agent. -/
def AgentLimits.default : AgentLimits :=
  { audiences := none, scopes := none, maxDelegationDepth := 1, impersonation := false,
    exchangeable := false, accessTokenTtlCap := none, humanApprovalScopes := ∅ }

/-- A registered client. -/
structure Client where
  id : String
  tokenBinding : TokenBinding
  scopes : Finset String
  /-- The audiences of a token that names none. -/
  resources : Finset String
  agent : Option AgentLimits

namespace Client

/-- The limits of an agent. -/
def limits (client : Client) : AgentLimits := client.agent.getD .default

/-- The tenant's access token lifetime, lowered by the cap of an agent. -/
def cap (client : Client) (lifetime : ℤ) : ℤ :=
  match client.agent.bind (·.accessTokenTtlCap) with
  | some cap => min lifetime cap
  | none => lifetime

end Client

end AsteriusIdp
