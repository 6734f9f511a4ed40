import TenantAccess.Proofs.Acceptance
import TenantAccess.Proofs.Custody
import TenantAccess.Proofs.Outsiders
import TenantAccess.Proofs.Reading

/-!
# The guard for the last owner

An owner of a resource may set and delete every grant on it, as long as anyone is an owner of it
afterwards. Otherwise the call is turned down for that reason, and for no other. Either way just one
row is set or deleted at most.
-/

namespace TenantAccess

open Store (Faithful Tables Change)
open Store.Faithful (tables)
open Transaction Table

/-! ## Changes of one grant -/

/-- A change of one grant on a resource. -/
inductive GrantChange
  | share (principal : PrincipalId) (level : Level)
  | unshare (principal : PrincipalId)
  | shareWithRole (role : RoleId) (level : Level)
  | unshareWithRole (role : RoleId)

namespace GrantChange

def command (r : ResourceId) : GrantChange → Command
  | share p level => .share r p level
  | unshare p => .unshare r p
  | shareWithRole role level => .shareWithRole r role level
  | unshareWithRole role => .unshareWithRole r role

/-- Grants go to members of the tenant and to roles of the initiative. -/
def Admitted (x : Resource) (t : Tables) : GrantChange → Prop
  | share p _ => t.tenantMemberships.contains (x.tenant, p) = true
  | shareWithRole role _ => ∃ row ∈ t.roles, row.id = role ∧ row.initiative = x.initiative
  | unshare _ | unshareWithRole _ => True

/-- The rows with this one set or deleted. -/
def rows (x : Resource) (t : Tables) : GrantChange → Tables
  | share p level => { t with userGrants := t.userGrants.insert ⟨x.id, p, level, x.tenant⟩ }
  | unshare p => { t with userGrants := t.userGrants.erase (x.id, p) }
  | shareWithRole role level =>
    { t with roleGrants := t.roleGrants.insert ⟨x.id, role, level, x.tenant⟩ }
  | unshareWithRole role => { t with roleGrants := t.roleGrants.erase (x.id, role) }

/-- The row that was set, or whether there was one to delete. -/
def answer (x : Resource) (t : Tables) : GrantChange → Answer
  | share p level => .userGrant ⟨x.id, p, level, x.tenant⟩
  | unshare p => .flag (t.userGrants.contains (x.id, p))
  | shareWithRole role level => .roleGrant ⟨x.id, role, level, x.tenant⟩
  | unshareWithRole role => .flag (t.roleGrants.contains (x.id, role))

theorem rows_of_missed {x : Resource} {t : Tables} {change : GrantChange}
    (missed : change.answer x t = .flag false) : change.rows x t = t := by
  cases change with
  | share p level => cases missed
  | unshare p => rw [rows, erase_eq_self (Answer.flag.inj missed)]
  | shareWithRole role level => cases missed
  | unshareWithRole role => rw [rows, erase_eq_self (Answer.flag.inj missed)]

end GrantChange

/-! ## Guarded transactions -/

section Guarded

variable {α β : Type} {x : Resource} {t' : Tables} {a : α} {f : Frame Tables}

/-- A run behind the guard for the last owner: it gives its answer and leaves certain rows if the
resource has an owner there, and fails for want of one otherwise. -/
inductive Guarded (x : Resource) (t' : Tables) (a : α) : Except Failure α × Frame Tables → Prop
  | passed {f' : Frame Tables} (owned : t'.Owned x) (store : f'.store = t') :
    Guarded x t' a (.ok a, f')
  | refused {f' : Frame Tables} (lost : ¬ t'.Owned x) :
    Guarded x t' a (.error (.lastOwner x.id), f')

namespace Guarded

theorem read {g : Tables → Transaction Tables α} (h : Guarded x t' a (g f.store f)) :
    Guarded x t' a ((current >>= g) f) := h

theorem afterCheck {r : Except Failure β} {b : β} {g : β → Transaction Tables α} (passes : r = .ok b)
    (h : Guarded x t' a (g b f)) : Guarded x t' a ((Transaction.check r >>= g) f) := by
  rw [passes]
  exact h

theorem answer {y : Transaction Tables α} (k : α → β) (h : Guarded x t' a (y f)) :
    Guarded x t' (k a) ((do return k (← y)) f) := by
  rw [bind_eq]
  generalize y f = r at h
  cases h with
  | passed owned store => exact .passed owned store
  | refused lost => exact .refused lost

theorem commit {y : Transaction Tables α} {t : Tables} {ids : Supply}
    (h : Guarded x t' a (y ⟨t, ids, []⟩)) :
    t'.Owned x ∧ (y.commit t ids).result = .ok a ∧ (y.commit t ids).store = t' ∨
      ¬ t'.Owned x ∧ (y.commit t ids).result = .error (.lastOwner x.id) := by
  unfold Transaction.commit
  generalize y ⟨t, ids, []⟩ = r at h
  cases h with
  | passed owned store => exact Or.inl ⟨owned, rfl, store⟩
  | refused lost => exact Or.inr ⟨lost, rfl⟩

end Guarded

end Guarded

/-! ## The guard for the last owner -/

namespace Administration

variable {f : Frame Tables} {scope : Scope} {x : Resource} {t' : Tables}

theorem needOwner_eq_error {t : Tables} {before after : Acl}
    (owned : before.Owned (Store.roleMap t before.resource.initiative))
    (lost : ¬ after.Owned (Store.roleMap t before.resource.initiative)) :
    needOwner t before after = .error (.lastOwner before.resource.id) := by
  cases h : needOwner t before after with
  | ok u => exact absurd (needOwner_eq_ok.1 h owned) lost
  | error e =>
    rw [needOwner] at h
    split at h
    · exact h.symm
    · cases h

/-- The guard looks at the very owners that the change leaves. -/
theorem guarded_change {α : Type} {c : Change} {hit : Bool} {event : Event} {a : α} {after : Acl}
    (owned : f.store.Owned x) (step : Tables.step c f.store = .ok (hit, t'))
    (acl : t'.acl x = after) (members : t'.memberships = f.store.memberships) :
    Guarded x t' a ((do
      needOwner f.store (f.store.acl x) after
      let _ ← change c
      report event
      return a : Transaction Tables α) f) := by
  have same : Store.roleMap t' x.initiative = Store.roleMap f.store x.initiative := by
    simp only [Store.roleMap, ask_membershipsIn, members]
  have kept : t'.Owned x ↔ after.Owned (Store.roleMap f.store x.initiative) := by
    rw [Tables.owned_iff, acl, same]
  by_cases left : t'.Owned x
  · refine .afterCheck (b := ()) (needOwner_eq_ok.2 fun _ => kept.1 left) ?_
    have done : change c f = (.ok hit, { f with store := t' }) := change_ok.2 ⟨t', step, rfl⟩
    rw [bind_eq, done]
    exact .passed left rfl
  · have refused := needOwner_eq_error (Tables.owned_iff.1 owned) (mt kept.2 left)
    rw [refused]
    exact .refused left

section Owner

variable (ht : f.store.Consistent) (hx : x ∈ f.store.resources) (here : x.tenant = scope.tenant)
  (owner : f.store.levelOn x scope.principal.id = some .owner)

include ht hx here owner

theorem owner_passes : scope.levelAtLeast f.store x.id .owner = .ok (f.store.acl x, .owner) := by
  have sees : scope.reaches x = true := Scope.reaches_own here
  have found : scope.findResource f.store x.id = .ok x :=
    Scope.findResource_eq_ok.2 ⟨find?_eq_some_iff.2 ⟨hx, rfl⟩, sees⟩
  exact (Scope.levelAtLeast_eq_ok ht found).2 ⟨rfl, owner, Nat.le_refl _, Or.inr here⟩

theorem share_guarded {p : PrincipalId} {level : Level}
    (member : f.store.tenantMemberships.contains (x.tenant, p) = true) :
    Guarded x ((GrantChange.share p level).rows x f.store) ⟨x.id, p, level, x.tenant⟩
      (share scope x.id p level f) := by
  obtain ⟨m, hm, key⟩ := contains_iff.1 member
  have registered := (ht.stored.tenantMembership m hm).2
  rw [(Prod.mk.inj key).2] at registered
  obtain ⟨row, known⟩ := Option.isSome_iff_exists.1 registered
  refine .read <| .afterCheck (owner_passes ht hx here owner) <|
    .afterCheck (knownPrincipal_eq_ok.2 known) <|
      .afterCheck (b := ()) (needTenantMember_eq_ok.2 member) ?_
  have step : Tables.step (.putUserGrant ⟨x.id, p, level, x.tenant⟩) f.store =
      .ok (true, (GrantChange.share p level).rows x f.store) :=
    Tables.step_putUserGrant.2 ⟨contains_iff.2 ⟨x, hx, rfl⟩, registered, rfl, rfl⟩
  exact guarded_change ⟨_, owner⟩ step (Tables.acl_insert.trans (if_pos rfl)) rfl

/-- What is not there is not deleted, and the guard is not asked. -/
theorem withdraw_guarded {held : Acl → Option Level} {without : Acl → Acl} {removal : Change}
    {event : Event} {there : Bool} (present : (held (f.store.acl x)).isSome = there)
    (step : Tables.step removal f.store = .ok (there, t')) (missed : there = false → t' = f.store)
    (acl : t'.acl x = without (f.store.acl x)) (members : t'.memberships = f.store.memberships) :
    Guarded x t' there (withdraw scope x.id held without removal event f) := by
  refine .read <| .afterCheck (owner_passes ht hx here owner) ?_
  have owned : f.store.Owned x := ⟨_, owner⟩
  cases e : held (f.store.acl x) with
  | none =>
    rw [e] at present
    subst present
    dsimp only
    rw [e]
    exact .passed (missed rfl ▸ owned) (missed rfl).symm
  | some level =>
    rw [e] at present
    subst present
    dsimp only
    rw [e]
    exact guarded_change owned step acl members

theorem unshare_guarded {p : PrincipalId} :
    Guarded x ((GrantChange.unshare p).rows x f.store) (f.store.userGrants.contains (x.id, p))
      (unshare scope x.id p f) := by
  have held : ((f.store.acl x).direct? p).isSome = f.store.userGrants.contains (x.id, p) := by
    rw [Tables.direct?_acl, Option.isSome_map, contains_eq_isSome]
  exact withdraw_guarded ht hx here owner held (Tables.step_removeUserGrant.2 ⟨rfl, rfl⟩)
    (fun missed => by rw [GrantChange.rows, erase_eq_self missed])
    (Tables.acl_erase.trans (if_pos rfl)) rfl

theorem shareWithRole_guarded {id : RoleId} {level : Level} {row : Role} (hrow : row ∈ f.store.roles)
    (key : row.id = id) (own : row.initiative = x.initiative) :
    Guarded x ((GrantChange.shareWithRole id level).rows x f.store) ⟨x.id, id, level, x.tenant⟩
      (shareWithRole scope x.id id level f) := by
  subst key
  refine .read <| .afterCheck (owner_passes ht hx here owner) <|
    .afterCheck (found_eq_ok.2 (find?_eq_some_iff.2 ⟨hrow, rfl⟩)) <|
      .afterCheck (b := ()) (lift_refusal_eq_ok.2 (Role.checkOn_eq_ok.2 own)) ?_
  have step : Tables.step (.putRoleGrant ⟨x.id, row.id, level, x.tenant⟩) f.store =
      .ok (true, (GrantChange.shareWithRole row.id level).rows x f.store) :=
    Tables.step_putRoleGrant.2
      ⟨contains_iff.2 ⟨x, hx, rfl⟩, contains_iff.2 ⟨row, hrow, rfl⟩, rfl, rfl⟩
  exact guarded_change ⟨_, owner⟩ step (Tables.acl_insertRole.trans (if_pos rfl)) rfl

theorem unshareWithRole_guarded {role : RoleId} :
    Guarded x ((GrantChange.unshareWithRole role).rows x f.store)
      (f.store.roleGrants.contains (x.id, role)) (unshareWithRole scope x.id role f) := by
  have held : ((f.store.acl x).levelOfRole? role).isSome =
      f.store.roleGrants.contains (x.id, role) := by
    rw [Tables.levelOfRole?_acl, Option.isSome_map, contains_eq_isSome]
  exact withdraw_guarded ht hx here owner held (Tables.step_removeRoleGrant.2 ⟨rfl, rfl⟩)
    (fun missed => by rw [GrantChange.rows, erase_eq_self missed])
    (Tables.acl_eraseRole.trans (if_pos rfl)) rfl

/-- Every change of a grant that an owner makes is guarded alike. -/
theorem guarded_perform {settings : Settings} {change : GrantChange}
    (admitted : change.Admitted x f.store) : Guarded x (change.rows x f.store)
      (change.answer x f.store) ((change.command x.id).perform settings scope f) := by
  cases change with
  | share p level => exact (share_guarded ht hx here owner admitted).answer Answer.userGrant
  | unshare p => exact (unshare_guarded ht hx here owner).answer Answer.flag
  | shareWithRole role level =>
    obtain ⟨row, hrow, key, own⟩ := admitted
    exact (shareWithRole_guarded ht hx here owner hrow key own).answer Answer.roleGrant
  | unshareWithRole role => exact (unshareWithRole_guarded ht hx here owner).answer Answer.flag

end Owner

end Administration

theorem Caller.scope_opens_of_level (settings : Settings) {caller : Caller} {t : Tables}
    {x : Resource} {level : Level} (ht : t.Consistent) (held : t.Enclosed) (hx : x ∈ t.resources)
    (here : x.tenant = caller.tenant) (has : t.levelOn x caller.principal = some level) :
    ∃ scope, caller.scope settings t = .ok scope := by
  have tenant : t.tenants.contains caller.tenant = true := here ▸ (ht.stored.resource x hx).2
  have insider : t.Insider caller.tenant caller.principal := by
    refine Decidable.not_not.1 fun outside => ?_
    rw [held.levelOn_outsider ht hx (here ▸ outside)] at has
    cases has
  rcases insider with ⟨row, hrow, e, admin⟩ | member
  · exact scope_opens settings (find?_eq_some_iff.2 ⟨hrow, e⟩) tenant (Or.inl admin)
  · obtain ⟨m, hm, key⟩ := contains_iff.1 member
    obtain ⟨hu, hp⟩ := Prod.mk.inj key
    exact scope_opens_of_member ht ⟨m, hm, hp, hu⟩ settings

namespace Reachable

variable {σ : Type} [Store.Backend σ] [Faithful σ] {s : σ}

/-- The guard for the last owner is exact. An owner that changes one grant on a resource of its tenant
fails just if nobody would be an owner of it then, and otherwise just this grant is changed. -/
theorem last_owner_guarded (h : Reachable s) (caller : Caller) {x : Resource}
    (hx : x ∈ (tables s).resources) (here : x.tenant = caller.tenant)
    (owner : (tables s).levelOn x caller.principal = some .owner) (change : GrantChange)
    (admitted : change.Admitted x (tables s)) (settings : Settings) (ids : Supply) :
    let rows := change.rows x (tables s)
    let out := (Call.request caller (.order (change.command x.id))).run settings s ids
    (out.result = .error (.lastOwner x.id) ↔ ∀ p, rows.levelOn x p ≠ some .owner) ∧
    ((∃ p, rows.levelOn x p = some .owner) →
      out.result = .ok (change.answer x (tables s)) ∧ tables out.store = rows) ∧
    (change.answer x (tables s) = .flag false →
      out.result = .ok (.flag false) ∧ tables out.store = tables s) ∧
    (∀ e, out.result = .error e → out.store = s) ∧
    ∃ p, (tables out.store).levelOn x p = some .owner := by
  intro rows out
  have fresh : ids.FreshFor
      ((Call.request caller (.order (change.command x.id))).draws settings) (tables s) := by
    cases change <;> exact .zero
  have mirrors := h.run_mirrors fresh
  have result : out.result = _ :=
    mirrors.result.eq_of_checked (Call.run_checked _ h.consistent h.namesApart fresh)
  obtain ⟨scope, opened⟩ :=
    caller.scope_opens_of_level settings h.consistent h.enclosed hx here owner
  obtain ⟨_, _, _, tenant, _⟩ := Caller.scope_eq_ok opened
  have guarded : Guarded x rows (change.answer x (tables s))
      ((Call.request caller (.order (change.command x.id))).perform settings ⟨tables s, ids, []⟩) := by
    obtain ⟨events, e⟩ := caller.openScope_eq settings ⟨tables s, ids, []⟩
    rw [Call.perform, bind_eq, e, opened]
    rw [← Caller.scope_principal opened] at owner
    exact Administration.guarded_perform (f := ⟨tables s, ids, events⟩) h.consistent hx
      (here.trans tenant.symm) owner admitted
  rcases guarded.commit with ⟨owned, succeeded, store⟩ | ⟨lost, failed⟩
  · have succeeded : out.result = .ok (change.answer x (tables s)) := result.trans succeeded
    have left : tables out.store = rows := mirrors.store.trans store
    refine ⟨?_, fun _ => ⟨succeeded, left⟩, fun missed => ?_, fun e failed => ?_, left ▸ owned⟩
    · have passed : out.result ≠ .error (.lastOwner x.id) := by
        rw [succeeded]
        intro e
        cases e
      exact iff_of_false passed fun unowned => owned.elim unowned
    · rw [succeeded, left]
      exact ⟨congrArg _ missed, GrantChange.rows_of_missed missed⟩
    · cases succeeded.symm.trans failed
  · have failed : out.result = .error (.lastOwner x.id) := result.trans failed
    have same : out.store = s := commit_error failed
    refine ⟨iff_of_true failed fun p level => lost ⟨p, level⟩, fun owned => absurd owned lost,
      fun missed => ?_, fun _ _ => same, same ▸ ⟨_, owner⟩⟩
    have idle : rows = tables s := GrantChange.rows_of_missed missed
    rw [idle] at lost
    exact absurd ⟨_, owner⟩ lost

/-- Such as the founder of a tenant that takes the grant of the only owner, its own, from its
project. -/
theorem last_owner_guarded_founding :
    let founder : Caller := ⟨Supply.numberedId 0, .member, Supply.numberedId 1, .activeTenant⟩
    let founded : Tables := (Call.runAll default (Call.founding 0 "ada" "acme") .empty .empty).1
    let unshare : Call := .request founder
      (.order (.unshare (Supply.numberedId 5) (Supply.numberedId 0)))
    (unshare.run default founded .empty).result = .error (.lastOwner (Supply.numberedId 5)) := by
  intro founder founded unshare
  let project : Resource :=
    ⟨Supply.numberedId 5, .project, Supply.numberedId 2, Supply.numberedId 1, "plan"⟩
  have reachable : Reachable founded := of_runAll (by decide +kernel)
  have there : project ∈ (tables founded).resources := mem_iff.2 (by decide +kernel)
  have owner : (tables founded).levelOn project (Supply.numberedId 0) = some .owner := by
    decide +kernel
  have unowned : ¬ ((GrantChange.unshare (Supply.numberedId 0)).rows project (tables founded)).Owned
      project := by
    rw [Tables.owned_iff, ← Acl.owners_isEmpty]
    decide +kernel
  have guarded := reachable.last_owner_guarded founder there rfl owner
    (.unshare (Supply.numberedId 0)) trivial default .empty
  exact guarded.1.2 fun p level => unowned ⟨p, level⟩

end Reachable

end TenantAccess
