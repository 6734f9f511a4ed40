import TenantAccess.Proofs.Effects
import TenantAccess.Proofs.Store.Restriction

/-!
# Transactions on all rows and on those of one tenant

A transaction is local to a tenant if it goes on the rows of the tenant alone as it goes on all rows: it
succeeds with the same value and leaves the same rows there, or fails on both. Why it fails may differ.
-/

namespace TenantAccess

open Store (Tables Change)

variable {α β : Type} {u : TenantId}

/-- Both are the same value, or both are refused. -/
def Alike (r r' : Except Failure α) : Prop := ∀ a, r = .ok a ↔ r' = .ok a

theorem Alike.refl (r : Except Failure α) : Alike r r := fun _ => Iff.rfl

/-- Consistent rows and, in the second frame, those of a tenant alone. -/
structure Frame.NarrowsTo (u : TenantId) (f g : Frame Tables) : Prop where
  consistent : f.store.Consistent
  store : g.store = f.store.only u
  ids : g.ids = f.ids

/-! ## Local transactions -/

namespace Transaction

/-- What a transaction does from one frame on is what another does on the rows of a tenant. -/
structure LocalAt (u : TenantId) (f g : Frame Tables) (x y : Transaction Tables α) : Prop where
  alike : Alike (x f).1 (y g).1
  narrows : ∀ a, (x f).1 = .ok a → (x f).2.NarrowsTo u (y g).2

namespace LocalAt

variable {f g : Frame Tables} {x y : Transaction Tables α} {k l : α → Transaction Tables β}

theorem pure (narrow : f.NarrowsTo u g) (a : α) :
    LocalAt u f g (pure a : Transaction Tables α) (pure a) :=
  ⟨.refl _, fun _ _ => narrow⟩

theorem bind (hx : LocalAt u f g x y)
    (hk : ∀ a f' g', x f = (.ok a, f') → f'.NarrowsTo u g' → LocalAt u f' g' (k a) (l a)) :
    LocalAt u f g (x >>= k) (y >>= l) := by
  obtain ⟨alike, narrows⟩ := hx
  rcases ex : x f with ⟨_ | a, f'⟩ <;> rcases ey : y g with ⟨_ | b, g'⟩ <;>
    rw [ex, ey] at alike narrows
  case error.error =>
    refine ⟨fun a => ?_, fun a => ?_⟩ <;> simp only [bind_eq, ex, ey, reduceCtorEq, false_implies]
  case ok.ok =>
    obtain rfl : b = a := Except.ok.inj ((alike a).1 rfl)
    obtain ⟨alike', narrows'⟩ := hk b f' g' ex (narrows b rfl)
    refine ⟨?_, ?_⟩ <;> simp only [bind_eq, ex, ey]
    · exact alike'
    · exact narrows'
  case error.ok => cases (alike b).2 rfl
  case ok.error => cases (alike a).1 rfl

theorem wrap (hx : LocalAt u f g x y) (h : α → β) :
    LocalAt u f g (do return h (← x)) (do return h (← y)) :=
  hx.bind fun _ _ _ _ narrow => .pure narrow _

/-- A transaction that reads the rows reads those of the tenant. -/
theorem read (narrow : f.NarrowsTo u g) {k l : Tables → Transaction Tables β}
    (hk : LocalAt u f g (k f.store) (l (f.store.only u))) :
    LocalAt u f g (current >>= k) (current >>= l) := by
  rw [← narrow.store] at hk
  exact ⟨hk.alike, hk.narrows⟩

theorem check {r r' : Except Failure α} (alike : Alike r r')
    (hk : ∀ a, r = .ok a → LocalAt u f g (k a) (l a)) :
    LocalAt u f g (check r >>= k) (check r' >>= l) := by
  cases r with
  | error e =>
    cases r' with
    | error e' => exact ⟨fun a => iff_of_false nofun nofun, nofun⟩
    | ok b => cases (alike b).2 rfl
  | ok a =>
    obtain rfl := (alike a).1 rfl
    have ⟨alike', narrows⟩ := hk a rfl
    exact ⟨alike', narrows⟩

/-- What is refused only on the rows of the tenant has to fail later on all rows. -/
theorem checkLater {r r' : Except Failure α} (fewer : ∀ a, r' = .ok a → r = .ok a)
    (hk : ∀ a, r = .ok a → r' = .ok a → LocalAt u f g (k a) (l a))
    (later : ∀ a, r = .ok a → r' ≠ .ok a → ∀ b f', k a f ≠ (.ok b, f')) :
    LocalAt u f g (Transaction.check r >>= k) (Transaction.check r' >>= l) := by
  cases r' with
  | ok a =>
    obtain rfl := fewer a rfl
    have ⟨alike, narrows⟩ := hk a rfl rfl
    exact ⟨alike, narrows⟩
  | error e' =>
    cases r with
    | error e => exact ⟨fun a => iff_of_false nofun nofun, nofun⟩
    | ok a =>
      have fails (b : β) : (k a f).1 ≠ .ok b := fun done => later a rfl nofun b _ (Prod.ext done rfl)
      exact ⟨fun b => iff_of_false (fails b) nofun, fun b done => absurd done (fails b)⟩

theorem ite {p : Prop} [Decidable p] {x' y' : Transaction Tables α}
    (hx : p → LocalAt u f g x y) (hx' : ¬ p → LocalAt u f g x' y') :
    LocalAt u f g (if p then x else x') (if p then y else y') := by
  split
  · exact hx ‹_›
  · exact hx' ‹_›

theorem guard {p : Prop} [Decidable p] {e : Failure} {k l : Unit → Transaction Tables β}
    (hk : ¬ p → LocalAt u f g (k ()) (l ())) :
    LocalAt u f g (if p then Transaction.check (.error e) >>= k else k ())
      (if p then Transaction.check (.error e) >>= l else l ()) :=
  .ite (fun _ => .check (.refl _) nofun) hk

theorem checkEither {p : Prop} [Decidable p] {r r' : Except Failure Unit}
    {k l : Unit → Transaction Tables β} (hk : LocalAt u f g (k ()) (l ())) :
    LocalAt u f g (if p then Transaction.check r >>= k else Transaction.check r' >>= k)
      (if p then Transaction.check r >>= l else Transaction.check r' >>= l) :=
  .ite (fun _ => .check (.refl _) fun _ _ => hk) fun _ => .check (.refl _) fun _ _ => hk

theorem fresh {noun : Noun} (narrow : f.NarrowsTo u g) {k l : Id noun → Transaction Tables β}
    (hk : ∀ f' g', f'.store = f.store → f'.ids = (@Supply.draw noun f.ids).2 → f'.NarrowsTo u g' →
      LocalAt u f' g' (k (@Supply.draw noun f.ids).1) (l (@Supply.draw noun f.ids).1)) :
    LocalAt u f g (fresh >>= k) (fresh >>= l) := by
  obtain ⟨store, ids, events⟩ := g
  obtain ⟨consistent, rfl, rfl⟩ := narrow
  have next := hk { f with ids := f.ids.draw.2 } ⟨f.store.only u, f.ids.draw.2, events⟩ rfl rfl
    ⟨consistent, rfl, rfl⟩
  exact ⟨next.alike, next.narrows⟩

theorem report (narrow : f.NarrowsTo u g) {e : Event} {k l : Unit → Transaction Tables β}
    (hk : ∀ f' g', f'.NarrowsTo u g' → LocalAt u f' g' (k ()) (l ())) :
    LocalAt u f g (report e >>= k) (report e >>= l) :=
  have reported : ({ f with events := f.events ++ [e] } : Frame Tables).NarrowsTo u
      { g with events := g.events ++ [e] } := ⟨narrow.consistent, narrow.store, narrow.ids⟩
  have next := hk _ _ reported
  ⟨next.alike, next.narrows⟩

theorem change (narrow : f.NarrowsTo u g) {c : Change} (allowed : Within u f.store c)
    (new : c.IsNew f.store) : LocalAt u f g (change c) (change c) := by
  have step {hit : Bool} {s : Tables} : Tables.step c g.store = .ok (hit, s) ↔
      ∃ t, Tables.step c f.store = .ok (hit, t) ∧ t.only u = s := by
    rw [narrow.store]
    exact narrow.consistent.step_only allowed.fits allowed.inside new
  have changed {f : Frame Tables} {hit : Bool} : (Transaction.change c f).1 = .ok hit ↔
      ∃ t, Tables.step c f.store = .ok (hit, t) := by
    constructor
    · intro h
      obtain ⟨t, step, _⟩ := change_ok.1 (Prod.ext h rfl)
      exact ⟨t, step⟩
    · rintro ⟨t, step⟩
      exact congrArg Prod.fst (change_ok.2 ⟨t, step, rfl⟩)
  constructor
  · intro hit
    rw [changed, changed]
    constructor
    · rintro ⟨t, h⟩
      exact ⟨t.only u, step.2 ⟨t, h, rfl⟩⟩
    · rintro ⟨s, h⟩
      obtain ⟨t, h, _⟩ := step.1 h
      exact ⟨t, h⟩
  · intro hit h
    obtain ⟨t, h⟩ := changed.1 h
    rw [change_ok.2 ⟨t, h, rfl⟩, change_ok.2 ⟨t.only u, step.2 ⟨t, h, rfl⟩, rfl⟩]
    exact ⟨narrow.consistent.step allowed.fits h, rfl, narrow.ids⟩

theorem afterChange {c : Change} {k l : Bool → Transaction Tables β} (narrow : f.NarrowsTo u g)
    (allowed : Within u f.store c) (new : c.IsNew f.store)
    (hk : ∀ hit t g', Tables.step c f.store = .ok (hit, t) →
      ({ f with store := t } : Frame Tables).NarrowsTo u g' →
        LocalAt u { f with store := t } g' (k hit) (l hit)) :
    LocalAt u f g (Transaction.change c >>= k) (Transaction.change c >>= l) := by
  refine (change narrow allowed new).bind fun hit f' g' changed narrow => ?_
  obtain ⟨t, step, rfl⟩ := change_ok.1 changed
  exact hk hit t g' step narrow

/-- When a local transaction ends, it has left the same rows of the tenant whether it failed or not. -/
theorem commit {t : Tables} {ids : Supply} (h : LocalAt u ⟨t, ids, []⟩ ⟨t.only u, ids, []⟩ x y) :
    Alike (x.commit t ids).result (y.commit (t.only u) ids).result ∧
      (y.commit (t.only u) ids).store = (x.commit t ids).store.only u := by
  obtain ⟨alike, narrows⟩ := h
  unfold Transaction.commit
  rcases ex : x ⟨t, ids, []⟩ with ⟨_ | a, f⟩ <;> rcases ey : y ⟨t.only u, ids, []⟩ with ⟨_ | b, g⟩ <;>
    rw [ex, ey] at alike narrows
  case error.error => exact ⟨fun _ => iff_of_false nofun nofun, rfl⟩
  case ok.ok => exact ⟨alike, (narrows a rfl).store⟩
  case error.ok => cases (alike b).2 rfl
  case ok.error => cases (alike a).1 rfl

/-! ## Lists -/

section Lists

variable {K : Tables → Prop} {γ : Type} {list : List γ}

/-- A transaction that goes through a list is local if each step is and keeps what the next one relies
on. -/
theorem forM {h : γ → Transaction Tables Unit} {k l : Unit → Transaction Tables β}
    (narrow : f.NarrowsTo u g) (hf : K f.store)
    (step : ∀ c ∈ list, ∀ f g, f.NarrowsTo u g → K f.store → LocalAt u f g (h c) (h c))
    (keeps : ∀ c ∈ list, ∀ f f', K f.store → h c f = (.ok (), f') → K f'.store)
    (hk : ∀ f' g', f'.NarrowsTo u g' → K f'.store → LocalAt u f' g' (k ()) (l ())) :
    LocalAt u f g (list.forM h >>= k) (list.forM h >>= l) := by
  induction list generalizing f g with
  | nil => exact hk f g narrow hf
  | cons c rest ih =>
    rw [List.forM, bind_assoc, bind_assoc]
    refine (step c List.mem_cons_self f g narrow hf).bind fun _ f' g' done narrow' => ?_
    exact ih narrow' (keeps c List.mem_cons_self f f' hf done)
      (fun c hc => step c (List.mem_cons_of_mem _ hc)) fun c hc => keeps c (List.mem_cons_of_mem _ hc)

theorem mapM {h : γ → Transaction Tables β} (narrow : f.NarrowsTo u g) (hf : K f.store)
    (step : ∀ c ∈ list, ∀ f g, f.NarrowsTo u g → K f.store → LocalAt u f g (h c) (h c))
    (keeps : ∀ c ∈ list, ∀ f f' b, K f.store → h c f = (.ok b, f') → K f'.store) :
    LocalAt u f g (list.mapM h) (list.mapM h) := by
  induction list generalizing f g with
  | nil => exact .pure narrow []
  | cons c rest ih =>
    rw [List.mapM_cons]
    refine (step c List.mem_cons_self f g narrow hf).bind fun b f' g' done narrow' => ?_
    refine (ih narrow' (keeps c List.mem_cons_self f f' b hf done)
      (fun c hc => step c (List.mem_cons_of_mem _ hc))
      fun c hc => keeps c (List.mem_cons_of_mem _ hc)).bind fun _ f'' g'' _ narrow'' => ?_
    exact .pure narrow'' _

end Lists

end LocalAt

end Transaction

end TenantAccess
