import TenantAccess.Caller
import TenantAccess.Store.Tables

/-!
# What a success tells

A computation that may fail has succeeded only if each of its parts has. These rules take a
successful transaction apart, part by part.
-/

namespace TenantAccess

/-! ## Results -/

section Except

variable {ε ε' α β : Type}

@[simp] theorem bind_eq_ok {x : Except ε α} {g : α → Except ε β} {b : β} :
    x >>= g = .ok b ↔ ∃ a, x = .ok a ∧ g a = .ok b := by
  cases x <;> simp [bind, Except.bind]

@[simp] theorem pure_eq_ok {a b : α} : (pure a : Except ε α) = .ok b ↔ a = b := by
  simp [pure, Except.pure]

@[simp] theorem throw_ne_ok {e : ε} {a : α} : (throw e : Except ε α) ≠ .ok a := by
  simp [throw, throwThe, MonadExceptOf.throw]

@[simp] theorem map_eq_ok {x : Except ε α} {g : α → β} {b : β} :
    g <$> x = .ok b ↔ ∃ a, x = .ok a ∧ g a = b := by
  cases x <;> simp [Functor.map, Except.map]

@[simp] theorem mapError_eq_ok {x : Except ε α} {g : ε → ε'} {a : α} :
    x.mapError g = .ok a ↔ x = .ok a := by
  cases x with
  | error e => constructor <;> intro h <;> cases h
  | ok b => constructor <;> intro h <;> cases h <;> rfl

@[simp] theorem lift_refusal_eq_ok {x : Except Refusal α} {a : α} :
    (liftM x : Except Failure α) = .ok a ↔ x = .ok a :=
  mapError_eq_ok

@[simp] theorem lift_storeError_eq_ok {x : Except Store.Error α} {a : α} :
    (liftM x : Except Failure α) = .ok a ↔ x = .ok a :=
  mapError_eq_ok

theorem exists_of_isOk {x : Except ε α} (h : x.isOk = true) : ∃ a, x = .ok a := by
  cases x with
  | error e => cases h
  | ok a => exact ⟨a, rfl⟩

theorem exists_of_toOption_map {x : Except ε α} {g : α → β} {b : β}
    (h : x.toOption.map g = some b) : ∃ a, x = .ok a ∧ g a = b := by
  cases x with
  | error e => cases h
  | ok a => exact ⟨a, rfl, Option.some.inj h⟩

/-- Where each success has to be the value of a function, the list of successes is its image. -/
theorem eq_map_of_mapM_ok {f : α → Except ε β} {g : α → β} {l : List α} {bs : List β}
    (hg : ∀ a ∈ l, ∀ b, f a = .ok b → b = g a) (h : l.mapM f = .ok bs) : bs = l.map g := by
  induction l generalizing bs with
  | nil =>
    rw [List.mapM_nil, pure_eq_ok] at h
    exact h.symm
  | cons a rest ih =>
    simp only [List.mapM_cons, bind_eq_ok, pure_eq_ok] at h
    obtain ⟨b, hb, bs', hbs', rfl⟩ := h
    rw [List.map_cons, hg a List.mem_cons_self b hb,
      ih (fun x hx => hg x (List.mem_cons_of_mem a hx)) hbs']

theorem mapM_congr {f g : α → Except ε β} {l : List α} (h : ∀ a ∈ l, f a = g a) :
    l.mapM f = l.mapM g := by
  induction l with
  | nil => rfl
  | cons a rest ih =>
    rw [List.mapM_cons, List.mapM_cons, h a List.mem_cons_self,
      ih fun x hx => h x (List.mem_cons_of_mem a hx)]

/-- Where a function gives each success, the list of its values is the success of all. -/
theorem mapM_eq_ok_map {f : α → Except ε β} {g : α → β} {l : List α}
    (h : ∀ a ∈ l, f a = .ok (g a)) : l.mapM f = .ok (l.map g) :=
  (mapM_congr h).trans List.mapM_pure

end Except

@[simp] theorem found_eq_ok {α : Type} {row : Option α} {target : String} {a : α} :
    found row target = .ok a ↔ row = some a := by
  cases row <;> simp [found]

/-! ## Transactions -/

namespace Transaction

variable {σ α β : Type} {f f' : Frame σ}

@[simp] theorem bind_ok {x : Transaction σ α} {g : α → Transaction σ β} {b : β} :
    (x >>= g) f = (.ok b, f') ↔ ∃ a f₁, x f = (.ok a, f₁) ∧ g a f₁ = (.ok b, f') := by
  rw [bind_eq]
  constructor
  · intro h
    split at h
    · exact ⟨_, _, ‹_›, h⟩
    · simp at h
  · rintro ⟨a, f₁, hx, hg⟩
    rw [hx]
    exact hg

@[simp] theorem pure_ok {a b : α} : (pure a : Transaction σ α) f = (.ok b, f') ↔ a = b ∧ f = f' := by
  simp [pure_eq]

theorem return_ok {x : Transaction σ α} {g : α → β} {b : β} :
    (do return g (← x) : Transaction σ β) f = (.ok b, f') ↔ ∃ a, x f = (.ok a, f') ∧ g a = b := by
  simp only [bind_ok, pure_ok]
  constructor
  · rintro ⟨a, _, hx, rfl, rfl⟩
    exact ⟨a, hx, rfl⟩
  · rintro ⟨a, hx, rfl⟩
    exact ⟨a, f', hx, rfl, rfl⟩

@[simp] theorem check_ok {r : Except Failure α} {a : α} :
    check r f = (.ok a, f') ↔ r = .ok a ∧ f = f' := by
  simp [check]

@[simp] theorem lift_ok {r : Except Failure α} {a : α} :
    (liftM r : Transaction σ α) f = (.ok a, f') ↔ r = .ok a ∧ f = f' :=
  check_ok

@[simp] theorem lift_refusal_ok {r : Except Refusal α} {a : α} :
    (liftM r : Transaction σ α) f = (.ok a, f') ↔ r = .ok a ∧ f = f' := by
  have : (liftM r : Transaction σ α) = check (r.mapError Failure.ofRefusal) := rfl
  rw [this, check_ok, mapError_eq_ok]

@[simp] theorem lift_storeError_ok {r : Except Store.Error α} {a : α} :
    (liftM r : Transaction σ α) f = (.ok a, f') ↔ r = .ok a ∧ f = f' := by
  have : (liftM r : Transaction σ α) = check (r.mapError Failure.store) := rfl
  rw [this, check_ok, mapError_eq_ok]

@[simp] theorem current_ok {s : σ} : current f = (.ok s, f') ↔ f.store = s ∧ f = f' := by
  simp [current]

@[simp] theorem report_ok {e : Event} {u : Unit} :
    report e f = (.ok u, f') ↔ { f with events := f.events ++ [e] } = f' := by
  simp [report]

@[simp] theorem fresh_ok {noun : Noun} {id : Id noun} :
    fresh f = (.ok id, f') ↔ (@Supply.draw noun f.ids).1 = id ∧
      { f with ids := (@Supply.draw noun f.ids).2 } = f' := by
  simp [fresh]

@[simp] theorem ite_ok {p : Prop} [Decidable p] {x y : Transaction σ α} {a : α} :
    (if p then x else y) f = (.ok a, f') ↔ p ∧ x f = (.ok a, f') ∨ ¬ p ∧ y f = (.ok a, f') := by
  split <;> simp_all

@[simp] theorem change_ok {f f' : Frame Store.Tables} {c : Store.Change} {hit : Bool} :
    change c f = (.ok hit, f') ↔
      ∃ t, Store.Tables.step c f.store = .ok (hit, t) ∧ { f with store := t } = f' := by
  have : Store.Backend.change c f.store = (Store.Tables.step c).run f.store := rfl
  simp only [change, this, Store.Step.run]
  cases Store.Tables.step c f.store with
  | error e => simp
  | ok r => simp [Prod.ext_iff, and_assoc]

theorem forM_report {l : List Event} {f : Frame σ} :
    l.forM report f = (.ok (), { f with events := f.events ++ l }) := by
  induction l generalizing f with
  | nil =>
    rw [List.append_nil]
    rfl
  | cons e rest ih =>
    have step : (e :: rest).forM report f =
        rest.forM report { f with events := f.events ++ [e] } := rfl
    rw [step, ih, List.append_assoc]
    rfl

/-- A transaction that goes through a list keeps what each step keeps. -/
theorem forM_ok_induction {l : List α} {g : α → Transaction σ Unit} {P : Frame σ → Prop}
    (step : ∀ a ∈ l, ∀ f f', P f → g a f = (.ok (), f') → P f') (hf : P f)
    (h : l.forM g f = (.ok (), f')) : P f' := by
  induction l generalizing f with
  | nil =>
    simp only [List.forM, pure_ok] at h
    exact h.2 ▸ hf
  | cons a rest ih =>
    simp only [List.forM, bind_ok] at h
    obtain ⟨_, f₁, ha, hrest⟩ := h
    exact ih (fun b hb => step b (List.mem_cons_of_mem a hb))
      (step a List.mem_cons_self f f₁ hf ha) hrest

theorem commit_ok {t : Transaction σ α} {store : σ} {ids : Supply} {a : α}
    (h : (t.commit store ids).result = .ok a) :
    ∃ f, t ⟨store, ids, []⟩ = (.ok a, f) ∧ (t.commit store ids).store = f.store := by
  unfold commit at h ⊢
  split at h
  · simp only [Except.ok.injEq] at h
    subst h
    exact ⟨_, ‹_›, rfl⟩
  · simp at h

theorem commit_error {t : Transaction σ α} {store : σ} {ids : Supply} {e : Failure}
    (h : (t.commit store ids).result = .error e) : (t.commit store ids).store = store := by
  unfold commit at h ⊢
  split <;> simp_all

end Transaction

end TenantAccess
