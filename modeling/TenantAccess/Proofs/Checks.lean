import TenantAccess.Proofs.Sight

/-!
# Why checks fail

A check that fails has a reason of its own to give. Only the reading of access lists may fail in the
store, and it does not where the rows fit together.
-/

namespace TenantAccess

open Store (Tables)
open Store.Backend (ask)
open Table

/-- The failure is one that a check of a call gives, and not one of the store or of the settings. -/
def Failure.ByCheck : Failure → Prop
  | notFound _ | accessDenied .. | forbidden _ | featureDisabled _ | invalidReference _ | roleInUse ..
  | lastOwner _ | conflict _ | invalid _ => True
  | badSettings | store _ => False

/-- If this fails, it is a check that fails. -/
def Checked {α : Type} (r : Except Failure α) : Prop := ∀ e, r = .error e → e.ByCheck

namespace Checked

variable {α β : Type} {x : Except Failure α} {g : α → Except Failure β}

theorem ok (a : α) : Checked (.ok a) := by
  intro e h
  cases h

theorem error {e : Failure} (h : e.ByCheck) : Checked (.error e : Except Failure α) := by
  intro e' h'
  exact Except.error.inj h' ▸ h

theorem bind (hx : Checked x) (hg : ∀ a, x = .ok a → Checked (g a)) : Checked (x >>= g) := by
  cases x with
  | error e => exact error (hx e rfl)
  | ok a => exact hg a rfl

theorem ite {p : Prop} [Decidable p] {y : Except Failure α} (hx : p → Checked x)
    (hy : ¬ p → Checked y) : Checked (if p then x else y) := by
  split
  · exact hx ‹_›
  · exact hy ‹_›

theorem refusal (r : Except Refusal α) : Checked (liftM r : Except Failure α) := by
  cases r with
  | ok a => exact ok a
  | error refusal => cases refusal <;> exact error trivial

theorem storeError {r : Except Store.Error α} {a : α} (h : r = .ok a) :
    Checked (liftM r : Except Failure α) := by
  rw [h]
  exact ok a

theorem found (row : Option α) (target : String) : Checked (found row target) := by
  cases row with
  | none => exact error trivial
  | some a => exact ok a

theorem mapM {l : List α} {f : α → Except Failure β} (h : ∀ a ∈ l, Checked (f a)) :
    Checked (l.mapM f) := by
  induction l with
  | nil => exact ok []
  | cons a rest ih =>
    rw [List.mapM_cons]
    refine (h a List.mem_cons_self).bind fun b _ => ?_
    exact (ih fun x hx => h x (List.mem_cons_of_mem a hx)).bind fun bs _ => ok _

end Checked

/-! ## Guards -/

section Guards

variable {t : Tables} {scope : Scope}

namespace Scope

theorem findInitiative_checked (id : InitiativeId) : Checked (scope.findInitiative t id) :=
  .refusal _

theorem findResource_checked (id : ResourceId) : Checked (scope.findResource t id) := .refusal _

theorem needActiveTenant_checked {α : Type} [InTenant α] (item : α) :
    Checked (scope.needActiveTenant item) :=
  .ite (fun _ => .ok ()) fun _ => .error trivial

theorem needTenantAdmin_checked : Checked scope.needTenantAdmin :=
  .ite (fun _ => .ok ()) fun _ => .error trivial

theorem needManager_checked (i : Initiative) : Checked (scope.needManager t i) := by
  refine .bind (needActiveTenant_checked i) fun _ _ => ?_
  exact .ite (fun _ => .ok ()) fun _ => .error trivial

theorem managedInitiative_checked (id : InitiativeId) : Checked (scope.managedInitiative t id) :=
  .bind (findInitiative_checked id) fun i _ => .bind (needManager_checked i) fun _ _ => .ok _

theorem managedRole_checked (id : RoleId) : Checked (scope.managedRole t id) := by
  refine .bind (.found _ _) fun role _ => .bind (.refusal _) fun i _ => ?_
  exact .bind (needManager_checked i) fun _ _ => .ok _

theorem effective_checked (ht : t.Consistent) {x : Resource} (hx : x ∈ t.resources) :
    Checked (scope.effective t x) :=
  .bind (.storeError (ht.aclOf_eq hx)) fun _ _ => .ok _

theorem mem_of_findResource {id : ResourceId} {x : Resource}
    (h : scope.findResource t id = .ok x) : x ∈ t.resources :=
  (find?_eq_some_iff.1 (findResource_eq_ok.1 h).1).1

theorem levelAtLeast_checked (ht : t.Consistent) (id : ResourceId) (minimum : Level) :
    Checked (scope.levelAtLeast t id minimum) := by
  refine .bind (findResource_checked id) fun x found => ?_
  refine .bind (effective_checked ht (mem_of_findResource found)) fun entry _ => ?_
  have demanded : Checked (do
      let held ← liftM (entry.1.demand scope.principal.id (scope.roleThere t x.initiative) minimum)
      return (entry.1, held) : Except Failure (Acl × Level)) :=
    .bind (.refusal _) fun _ _ => .ok _
  refine .ite (fun _ => ?_) fun _ => demanded
  exact .bind (.error trivial) fun _ _ => demanded

theorem hasFeature_checked (i : InitiativeId) (feature : Feature) :
    Checked (scope.hasFeature t i feature) :=
  .ite (fun _ => .ok _) fun _ => .bind (findInitiative_checked i) fun _ _ => .ok _

theorem usable_checked (ht : t.Consistent) (minimum : Level) : Checked (scope.usable t minimum) := by
  refine .bind (.mapM fun x hx => ?_) fun _ _ => .ok _
  have levels (roles : Table (InitiativeId × RoleId)) : Checked (scope.levelWith t roles x) :=
    .bind (.storeError (ht.aclOf_eq (mem_visible hx).1)) fun _ _ => .ok _
  exact .bind (levels _) fun _ _ => .ok _

end Scope

namespace Administration

theorem roleIn_checked (i : Initiative) (id : RoleId) : Checked (roleIn t i id) :=
  .bind (.found _ _) fun _ _ => .bind (.refusal _) fun _ _ => .ok _

theorem needTenantMember_checked (tenant : TenantId) (p : PrincipalId) :
    Checked (needTenantMember t tenant p) :=
  .ite (fun _ => .ok ()) fun _ => .error trivial

theorem needCustom_checked (role : Role) (action : String) : Checked (needCustom role action) :=
  .ite (fun _ => .error trivial) fun _ => .ok ()

theorem needFreeName_checked (i : InitiativeId) (name : String) :
    Checked (needFreeName t i name) := by
  refine .ite (fun _ => .error trivial) fun _ => ?_
  exact .ite (fun _ => .error trivial) fun _ => .ok ()

theorem needOwner_checked (before after : Acl) : Checked (needOwner t before after) :=
  .ite (fun _ => .error trivial) fun _ => .ok ()

end Administration

theorem Question.answer_checked (ht : t.Consistent) (q : Question) : Checked (q.answer scope t) := by
  cases q with
  | scope => exact .ok _
  | level r =>
    refine .bind (.bind (Scope.findResource_checked r) fun x found => ?_) fun _ _ => .ok _
    exact .bind (Scope.effective_checked ht (Scope.mem_of_findResource found)) fun _ _ => .ok _
  | levelAtLeast r minimum =>
    exact .bind (Scope.levelAtLeast_checked ht r minimum) fun _ _ => .ok _
  | feature i feature => exact .bind (Scope.hasFeature_checked i feature) fun _ _ => .ok _
  | roles i =>
    exact .bind (.bind (Scope.findInitiative_checked i) fun _ _ => .ok _) fun _ _ => .ok _
  | visible => exact .ok _
  | usable minimum => exact .bind (Scope.usable_checked ht minimum) fun _ _ => .ok _

theorem Caller.scope_checked (settings : Settings) (caller : Caller) :
    Checked (caller.scope settings t) :=
  .bind (.found _ _) fun _ _ => .bind (.found _ _) fun _ _ => .refusal _

end Guards

end TenantAccess
