import TenantAccess.Call
import TenantAccess.Proofs.Store.Faithful

/-!
# Transactions on a faithful store and on its tables

A transaction on a faithful store mirrors one on tables: run on the tables of the store, the other
gives the same result, draws the same identifiers, reports the same events and leaves the tables of
the store that is left. Only which constraint a change breaks may differ.
-/

namespace TenantAccess

open Store (Faithful Tables Change)
open Store.Faithful (tables Sound)

variable {σ α β : Type} [Store.Backend σ] [Faithful σ]

/-- The frame on the tables of the store. -/
def Frame.view (f : Frame σ) : Frame Tables := ⟨tables f.store, f.ids, f.events⟩

/-- The same result, but for the constraint that a change breaks. -/
def SameResult (a b : Except Failure α) : Prop :=
  a = b ∨ ∃ v v', a = .error (.store (.constraint v)) ∧ b = .error (.store (.constraint v'))

theorem SameResult.ok_iff {a b : Except Failure α} (h : SameResult a b) {x : α} :
    a = .ok x ↔ b = .ok x := by
  rcases h with rfl | ⟨v, v', rfl, rfl⟩
  · exact Iff.rfl
  · simp

namespace Transaction

/-- What a transaction does from one frame on is what another does on the tables. -/
structure MirrorsAt (f : Frame σ) (x : Transaction σ α) (y : Transaction Tables α) : Prop where
  sound : Sound (x f).2.store
  view : (x f).2.view = (y f.view).2
  result : SameResult (x f).1 (y f.view).1

/-- The same from every frame with a sound store. -/
def Mirrors (x : Transaction σ α) (y : Transaction Tables α) : Prop :=
  ∀ f : Frame σ, Sound f.store → MirrorsAt f x y

variable {f : Frame σ} {x : Transaction σ α} {y : Transaction Tables α} {g : α → Transaction σ β}
  {h : α → Transaction Tables β}

theorem MirrorsAt.bind (hx : MirrorsAt f x y)
    (hg : ∀ a f', y f.view = (.ok a, f'.view) → Sound f'.store → MirrorsAt f' (g a) (h a)) :
    MirrorsAt f (x >>= g) (y >>= h) := by
  obtain ⟨sound, view, result⟩ := hx
  rcases ex : x f with ⟨_ | a, f'⟩ <;> rcases ey : y f.view with ⟨_ | b, f''⟩ <;>
    rw [ex] at sound view result <;> rw [ey] at view result
  case error.error e e' =>
    refine ⟨?_, ?_, ?_⟩ <;> simp only [bind_eq, ex, ey]
    · exact sound
    · exact view
    · rcases result with result | ⟨v, v', hv, hv'⟩
      · exact Or.inl (by rw [Except.error.inj result])
      · exact Or.inr ⟨v, v', by rw [Except.error.inj hv], by rw [Except.error.inj hv']⟩
  case ok.ok =>
    obtain rfl : a = b := Except.ok.inj (result.ok_iff.2 rfl)
    obtain rfl : f'.view = f'' := view
    obtain ⟨sound', view', result'⟩ := hg a f' ey sound
    refine ⟨?_, ?_, ?_⟩ <;> simp only [bind_eq, ex, ey]
    · exact sound'
    · exact view'
    · exact result'
  case error.ok => exact absurd (result.ok_iff.2 rfl) (by simp)
  case ok.error => exact absurd (result.ok_iff.1 rfl) (by simp)

theorem MirrorsAt.read {g : σ → Transaction σ β} {h : Tables → Transaction Tables β}
    (hg : MirrorsAt f (g f.store) (h (tables f.store))) :
    MirrorsAt f (current >>= g) (current >>= h) :=
  ⟨hg.sound, hg.view, hg.result⟩

theorem MirrorsAt.check {r : Except Failure α} (sound : Sound f.store)
    (hg : ∀ a, r = .ok a → MirrorsAt f (g a) (h a)) :
    MirrorsAt f (check r >>= g) (check r >>= h) := by
  cases r with
  | error e => exact ⟨sound, rfl, Or.inl rfl⟩
  | ok a =>
    have ⟨sound', view, result⟩ := hg a rfl
    exact ⟨sound', view, result⟩

theorem MirrorsAt.ite {p : Prop} [Decidable p] {x' : Transaction σ α} {y' : Transaction Tables α}
    (hx : p → MirrorsAt f x y) (hx' : ¬ p → MirrorsAt f x' y') :
    MirrorsAt f (if p then x else x') (if p then y else y') := by
  split
  · exact hx ‹_›
  · exact hx' ‹_›

theorem MirrorsAt.fresh {noun : Noun} {g : Id noun → Transaction σ β}
    {h : Id noun → Transaction Tables β}
    (hg : MirrorsAt { f with ids := (@Supply.draw noun f.ids).2 } (g (@Supply.draw noun f.ids).1)
      (h (@Supply.draw noun f.ids).1)) :
    MirrorsAt f (fresh >>= g) (fresh >>= h) :=
  ⟨hg.sound, hg.view, hg.result⟩

namespace Mirrors

theorem bind (hx : Mirrors x y) (hg : ∀ a, Mirrors (g a) (h a)) : Mirrors (x >>= g) (y >>= h) :=
  fun f sound => (hx f sound).bind fun a f' _ sound' => hg a f' sound'

theorem pure (a : α) : Mirrors (pure a : Transaction σ α) (pure a) :=
  fun _ sound => ⟨sound, rfl, Or.inl rfl⟩

theorem check (r : Except Failure α) : Mirrors (check r : Transaction σ α) (check r) :=
  fun _ sound => ⟨sound, rfl, Or.inl rfl⟩

theorem report (e : Event) : Mirrors (report e : Transaction σ Unit) (report e) :=
  fun _ sound => ⟨sound, rfl, Or.inl rfl⟩

theorem fresh {noun : Noun} : Mirrors (fresh : Transaction σ (Id noun)) fresh :=
  fun _ sound => ⟨sound, rfl, Or.inl rfl⟩

theorem read {g : σ → Transaction σ β} {h : Tables → Transaction Tables β}
    (hg : ∀ s, Sound s → Mirrors (g s) (h (tables s))) : Mirrors (current >>= g) (current >>= h) :=
  fun f sound => .read (hg f.store sound f sound)

theorem ite {p : Prop} [Decidable p] {x x' : Transaction σ α} {y y' : Transaction Tables α}
    (hx : Mirrors x y) (hx' : Mirrors x' y') :
    Mirrors (if p then x else x') (if p then y else y') :=
  fun f sound => .ite (fun _ => hx f sound) fun _ => hx' f sound

theorem forM {l : List α} {g : α → Transaction σ Unit} {h : α → Transaction Tables Unit}
    (hg : ∀ a, Mirrors (g a) (h a)) : Mirrors (l.forM g) (l.forM h) := by
  induction l with
  | nil => exact pure ()
  | cons a rest ih => exact (hg a).bind fun _ => ih

theorem mapM {l : List α} (hg : ∀ a, Mirrors (g a) (h a)) : Mirrors (l.mapM g) (l.mapM h) := by
  induction l with
  | nil => exact pure []
  | cons a rest ih =>
    rw [List.mapM_cons, List.mapM_cons]
    exact (hg a).bind fun _ => ih.bind fun _ => pure _

end Mirrors

theorem MirrorsAt.change (sound : Sound f.store) {c : Change} (up : c.Upright (tables f.store)) :
    MirrorsAt f (change c) (change c) := by
  have follows := Faithful.change_follows sound up
  have step : Store.Backend.change c (tables f.store) = (Tables.step c).run (tables f.store) := rfl
  generalize ex : Store.Backend.change c f.store = r at follows
  generalize ey : Tables.step c (tables f.store) = r' at follows
  cases follows with
  | @done hit s' sound' =>
    refine ⟨?_, ?_, ?_⟩ <;> simp only [Transaction.change, ex, Frame.view, step, Store.Step.run, ey]
    · exact sound'
    · exact Or.inl rfl
  | refused v v' =>
    refine ⟨?_, ?_, ?_⟩ <;> simp only [Transaction.change, ex, Frame.view, step, Store.Step.run, ey]
    · exact sound
    · exact Or.inr ⟨v, v', rfl, rfl⟩

/-- Every change but that of a role may be made to any rows. -/
theorem Mirrors.change {c : Change} (up : ∀ t, c.Upright t) :
    Mirrors (change c : Transaction σ Bool) (change c) :=
  fun _ sound => .change sound (up _)

end Transaction

end TenantAccess
