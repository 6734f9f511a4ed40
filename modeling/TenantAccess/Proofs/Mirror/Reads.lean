import TenantAccess.Proofs.Mirror

/-!
# What is read from a faithful store

All that is read from a sound store is read from its tables just the same.
-/

namespace TenantAccess

open Store (Faithful Tables)
open Store.Faithful (tables Sound)

variable {σ : Type} [Store.Backend σ] [Faithful σ] {s : σ} (h : Sound s) (scope : Scope)

include h

/-! ## Stores -/

namespace Store

theorem ask_tables {α : Type} (q : Query α) : Backend.ask q s = Backend.ask q (tables s) :=
  Faithful.ask_eq h q

theorem aclOf_tables : aclOf s = aclOf (tables s) := by
  funext resource
  simp only [aclOf, ask_tables h]

theorem roleMap_tables : roleMap s = roleMap (tables s) := by
  funext i
  simp only [roleMap, ask_tables h]

theorem managingRoles_tables : managingRoles s = managingRoles (tables s) := by
  funext i
  simp only [managingRoles, ask_tables h]

theorem heldRole_tables : heldRole s = heldRole (tables s) := by
  funext i p
  simp only [heldRole, ask_tables h]

end Store

open Store

theorem Caller.scope_tables (settings : Settings) (caller : Caller) :
    caller.scope settings s = caller.scope settings (tables s) := by
  simp only [Caller.scope, ask_tables h]

theorem Caller.warnings_tables (settings : Settings) (caller : Caller) :
    caller.warnings settings s = caller.warnings settings (tables s) := by
  simp only [Caller.warnings, ask_tables h]

/-! ## Scopes -/

namespace Scope

theorem findResource_tables : scope.findResource s = scope.findResource (tables s) := by
  funext id
  simp only [findResource, ask_tables h]

theorem findInitiative_tables : scope.findInitiative s = scope.findInitiative (tables s) := by
  funext id
  simp only [findInitiative, ask_tables h]

theorem roleThere_tables : scope.roleThere s = scope.roleThere (tables s) := by
  funext i
  simp only [roleThere, ask_tables h]

theorem effective_tables : scope.effective s = scope.effective (tables s) := by
  funext resource
  simp only [effective, aclOf_tables h, roleThere_tables h]

theorem level_tables : scope.level s = scope.level (tables s) := by
  funext id
  simp only [level, effective_tables h, findResource_tables h]

theorem levelAtLeast_tables : scope.levelAtLeast s = scope.levelAtLeast (tables s) := by
  funext id minimum
  simp only [levelAtLeast, findResource_tables h, effective_tables h, roleThere_tables h]

theorem hasFeature_tables : scope.hasFeature s = scope.hasFeature (tables s) := by
  funext i feature
  simp only [hasFeature, findInitiative_tables h, heldRole_tables h]

theorem roles_tables : scope.roles s = scope.roles (tables s) := by
  funext i
  simp only [roles, findInitiative_tables h, ask_tables h]

theorem visible_tables : scope.visible s = scope.visible (tables s) := by
  simp only [visible, ask_tables h]

theorem usable_tables : scope.usable s = scope.usable (tables s) := by
  funext minimum
  have levels : scope.levelWith s = scope.levelWith (tables s) := by
    funext roles resource
    simp only [levelWith, aclOf_tables h]
  simp only [usable, levels, visible_tables h, ask_tables h]

theorem isManagerOf_tables : scope.isManagerOf s = scope.isManagerOf (tables s) := by
  funext i
  simp only [isManagerOf, heldRole_tables h]

theorem needManager_tables : scope.needManager s = scope.needManager (tables s) := by
  funext initiative
  simp only [needManager, isManagerOf_tables h]

theorem managedInitiative_tables :
    scope.managedInitiative s = scope.managedInitiative (tables s) := by
  funext id
  simp only [managedInitiative, findInitiative_tables h, needManager_tables h]

theorem managedRole_tables : scope.managedRole s = scope.managedRole (tables s) := by
  funext id
  simp only [managedRole, needManager_tables h, ask_tables h]

end Scope

/-! ## Checks of commands -/

namespace Administration

theorem roleIn_tables : roleIn s = roleIn (tables s) := by
  funext initiative id
  simp only [roleIn, ask_tables h]

theorem knownPrincipal_tables : knownPrincipal s = knownPrincipal (tables s) := by
  funext id
  simp only [knownPrincipal, ask_tables h]

theorem needTenantMember_tables : needTenantMember s = needTenantMember (tables s) := by
  funext tenant p
  simp only [needTenantMember, ask_tables h]

theorem needOwner_tables : needOwner s = needOwner (tables s) := by
  funext before after
  simp only [needOwner, roleMap_tables h]

theorem needFreeName_tables : needFreeName s = needFreeName (tables s) := by
  funext i name
  simp only [needFreeName, ask_tables h]

end Administration

theorem Succession.accessLists_tables : accessLists s = accessLists (tables s) := by
  funext i
  simp only [accessLists, aclOf_tables h, ask_tables h]

theorem Question.answer_tables (q : Question) :
    q.answer scope s = q.answer scope (tables s) := by
  cases q with
  | scope => rfl
  | level r => simp only [answer, Scope.level_tables h]
  | levelAtLeast r minimum => simp only [answer, Scope.levelAtLeast_tables h]
  | feature i f => simp only [answer, Scope.hasFeature_tables h]
  | roles i => simp only [answer, Scope.roles_tables h]
  | visible => simp only [answer, Scope.visibleIds, Scope.visible_tables h]
  | usable minimum => simp only [answer, Scope.usable_tables h]

end TenantAccess
