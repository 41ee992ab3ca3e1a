import Peryx.Lib.Machine

/-!
# Roles and their delegation

`roles.rs` of `peryx-identity`: fixed roles, bound to users at the server or at
one repository. An administrator may delegate within their own reach, so the
reach of every grant a chain of delegations makes lies in that of an
administrator from the start of the chain.

- `delegation_never_escalates`: what a chain of delegations can grant.
-/

namespace Peryx.Identity

open List

inductive Scope where
  | repositoryRead
  | repositoryWrite
  | repositoryDelete
  | operatorRead
  | analyticsRead
  | administrationRead
  | administrationWrite
deriving DecidableEq

inductive Resource where
  | repository (name : String)
  | operator
deriving DecidableEq

def Scope.appliesTo : Scope → Resource → Bool
  | .repositoryRead, .repository _ | .repositoryWrite, .repository _
  | .repositoryDelete, .repository _ => true
  | .operatorRead, .operator | .analyticsRead, .operator | .administrationRead, .operator
  | .administrationWrite, .operator => true
  | _, _ => false

inductive Role where
  | administrator
  | repositoryPublisher
  | repositoryReader
  | operator
deriving DecidableEq

namespace Role

def asStr : Role → String
  | administrator => "administrator"
  | repositoryPublisher => "repository_publisher"
  | repositoryReader => "repository_reader"
  | operator => "operator"

def scopes : Role → List Scope
  | administrator =>
    [.repositoryRead, .repositoryWrite, .repositoryDelete, .operatorRead, .analyticsRead,
      .administrationRead, .administrationWrite]
  | repositoryPublisher => [.repositoryRead, .repositoryWrite, .repositoryDelete]
  | repositoryReader => [.repositoryRead]
  | operator => [.operatorRead, .analyticsRead]

def carries (role : Role) (scope : Scope) : Bool :=
  role.scopes.contains scope

end Role

inductive GrantScope where
  | server
  | repository (name : String)
deriving DecidableEq

namespace GrantScope

def covers : GrantScope → Resource → Bool
  | server, _ => true
  | repository name, .repository target => name = target
  | repository _, .operator => false

def coversReach : GrantScope → GrantScope → Bool
  | server, _ => true
  | repository name, repository target => name = target
  | repository _, server => false

theorem coversReach_repository {name : String} {reach : GrantScope}
    (covers : (repository name).coversReach reach = true) : reach = repository name := by
  cases reach with
  | server => cases covers
  | repository target => exact congrArg _ (of_decide_eq_true covers).symm

theorem coversReach_trans {a b c : GrantScope} (first : a.coversReach b = true)
    (second : b.coversReach c = true) : a.coversReach c = true := by
  cases a with
  | server => rfl
  | repository name => exact coversReach_repository first ▸ second

theorem covers_of_coversReach {a b : GrantScope} {resource : Resource}
    (wider : a.coversReach b = true) (covers : b.covers resource = true) :
    a.covers resource = true := by
  cases a with
  | server => rfl
  | repository name => exact coversReach_repository wider ▸ covers

end GrantScope

variable {UserId : Type}

structure RoleGrant (UserId : Type) where
  user : UserId
  role : Role
  scope : GrantScope
deriving DecidableEq

def RoleGrant.permits (grant : RoleGrant UserId) (scope : Scope) (resource : Resource) : Bool :=
  grant.role.carries scope && scope.appliesTo resource && grant.scope.covers resource

def grantsPermit (grants : List (RoleGrant UserId)) (scope : Scope) (resource : Resource) : Bool :=
  grants.any (·.permits scope resource)

def canManageGrants (caller : List (RoleGrant UserId)) (reach : GrantScope) : Bool :=
  caller.any fun held => held.role = .administrator && held.scope.coversReach reach

/-! ## Delegation -/

structure Delegation (UserId : Type) where
  delegator : UserId
  grant : RoleGrant UserId

variable [DecidableEq UserId]

def userRoleGrants (grants : List (RoleGrant UserId)) (user : UserId) : List (RoleGrant UserId) :=
  grants.filter (·.user = user)

/-- The grant is made where the delegator's grants at that moment admit it. -/
def createGrant (grants : List (RoleGrant UserId)) (request : Delegation UserId) :
    List (RoleGrant UserId) × Bool :=
  if canManageGrants (userRoleGrants grants request.delegator) request.grant.scope then
    (grants ++ [request.grant], true)
  else (grants, false)

def AdministratorsReach (grants : List (RoleGrant UserId)) (resource : Resource) : Prop :=
  ∃ held ∈ grants, held.role = .administrator ∧ held.scope.covers resource = true

/-- A grant that was there, or one in the reach of an administrator that was. -/
def Confined (initial : List (RoleGrant UserId)) (grant : RoleGrant UserId) : Prop :=
  grant ∈ initial ∨
    ∃ held ∈ initial, held.role = .administrator ∧ held.scope.coversReach grant.scope = true

/-- One delegation keeps the grants confined: its delegator is an administrator
who was there, or one whose own reach is confined. -/
theorem createGrant_confined {initial grants : List (RoleGrant UserId)}
    (confined : ∀ grant ∈ grants, Confined initial grant) (request : Delegation UserId) :
    ∀ grant ∈ Machine.next createGrant grants request, Confined initial grant := by
  unfold Machine.next createGrant
  split
  · next admitted =>
    intro grant mem
    obtain mem | mem := mem_append.mp mem
    · exact confined grant mem
    · obtain rfl := mem_singleton.mp mem
      simp only [canManageGrants, any_eq_true, Bool.and_eq_true, decide_eq_true_eq] at admitted
      obtain ⟨held, own, administrator, covers⟩ := admitted
      obtain there | ⟨above, there, role, wider⟩ := confined held (mem_of_mem_filter own)
      · exact .inr ⟨held, there, administrator, covers⟩
      · exact .inr ⟨above, there, role, GrantScope.coversReach_trans wider covers⟩
  · exact confined

theorem exec_confined (initial : List (RoleGrant UserId)) (requests : List (Delegation UserId)) :
    ∀ grant ∈ Machine.exec createGrant initial requests, Confined initial grant :=
  Machine.exec_invariant_always createGrant (I := fun grants => ∀ grant ∈ grants,
      Confined initial grant)
    (fun _ request confined => createGrant_confined confined request) initial requests
    fun _ mem => .inl mem

theorem exists_of_grantsPermit {grants : List (RoleGrant UserId)} {user : UserId} {scope : Scope}
    {resource : Resource} (holds : grantsPermit (userRoleGrants grants user) scope resource) :
    ∃ grant ∈ grants, grant.user = user ∧ grant.permits scope resource = true := by
  obtain ⟨grant, mem, permits⟩ := any_eq_true.mp holds
  obtain ⟨mem, own⟩ := mem_filter.mp mem
  exact ⟨grant, mem, of_decide_eq_true own, permits⟩

/-- **Delegation never escalates.** A permission that is held after any chain of
delegations was the user's from the start, or is on a resource that an
administrator from the start could reach; where there were only administrators of
repositories, it is on one of their repositories. -/
theorem delegation_never_escalates (initial : List (RoleGrant UserId))
    (requests : List (Delegation UserId)) :
    (∀ user scope resource,
      grantsPermit (userRoleGrants (Machine.exec createGrant initial requests) user) scope
        resource = true →
      grantsPermit (userRoleGrants initial user) scope resource = true ∨
        AdministratorsReach initial resource) ∧
    ((∀ held ∈ initial, held.role = .administrator ∧ ∃ name, held.scope = .repository name) →
      ∀ user scope resource,
        grantsPermit (userRoleGrants (Machine.exec createGrant initial requests) user) scope
          resource = true →
        ∃ held ∈ initial, ∃ name, held.scope = .repository name ∧
          resource = .repository name) := by
  have reached : ∀ user scope resource,
      grantsPermit (userRoleGrants (Machine.exec createGrant initial requests) user) scope
        resource = true →
      grantsPermit (userRoleGrants initial user) scope resource = true ∨
        AdministratorsReach initial resource := by
    intro user scope resource holds
    obtain ⟨grant, mem, own, permits⟩ := exists_of_grantsPermit holds
    obtain there | ⟨held, there, administrator, wider⟩ := exec_confined initial requests grant mem
    · exact .inl (any_eq_true.mpr ⟨grant, mem_filter.mpr ⟨there, decide_eq_true own⟩, permits⟩)
    · exact .inr ⟨held, there, administrator,
        GrantScope.covers_of_coversReach wider (Bool.and_eq_true_iff.mp permits).2⟩
  refine ⟨reached, fun repositories user scope resource holds => ?_⟩
  -- a permission held from the start is one of an administrator too
  have covered : AdministratorsReach initial resource := by
    obtain start | reach := reached user scope resource holds
    · obtain ⟨held, there, -, permits⟩ := exists_of_grantsPermit start
      exact ⟨held, there, (repositories held there).1, (Bool.and_eq_true_iff.mp permits).2⟩
    · exact reach
  obtain ⟨held, there, -, covers⟩ := covered
  obtain ⟨name, is⟩ := (repositories held there).2
  rw [is] at covers
  refine ⟨held, there, name, is, ?_⟩
  cases resource with
  | repository target => exact congrArg _ (of_decide_eq_true covers).symm
  | operator => cases covers

/-- A reader holds a permission although there is no administrator at all. -/
theorem reader_outside_administrators :
    ∃ (initial : List (RoleGrant String)) (user : String) (scope : Scope) (resource : Resource),
      grantsPermit (userRoleGrants (Machine.exec createGrant initial []) user) scope resource =
          true ∧
        ¬ AdministratorsReach initial resource := by
  refine ⟨[⟨"reader", .repositoryReader, .repository "pypi"⟩], "reader", .repositoryRead,
    .repository "pypi", by decide, ?_⟩
  rintro ⟨held, mem, administrator, -⟩
  obtain rfl := mem_singleton.mp mem
  cases administrator

end Peryx.Identity
