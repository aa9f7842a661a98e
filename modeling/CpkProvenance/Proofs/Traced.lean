import CpkProvenance.Update
import Mathlib.Data.List.Forall2

/-!
# Successful computations

What a computation that may fail did if it succeeded: every step of it gave a
result. No step looks at the log lines or at the number of reads. An update that
fails keeps the state of the step that failed.
-/

namespace CpkProvenance

section Plain

variable {ε α β : Type}

theorem ok_bind (a : α) (f : α → Except ε β) : (Except.ok a >>= f) = f a := rfl

theorem ok_map (f : α → β) (a : α) : (Except.ok a : Except ε α).map f = .ok (f a) := rfl

theorem bind_eq_ok_iff {x : Except ε α} {f : α → Except ε β} {b : β} :
    (x >>= f) = .ok b ↔ ∃ a, x = .ok a ∧ f a = .ok b := by
  cases x with
  | error e => simp [bind, Except.bind]
  | ok a => simp [bind, Except.bind]

theorem bind_eq_error_iff {x : Except ε α} {f : α → Except ε β} {e : ε} :
    (x >>= f) = .error e ↔ x = .error e ∨ ∃ a, x = .ok a ∧ f a = .error e := by
  cases x with
  | error found => simp [bind, Except.bind]
  | ok a => simp [bind, Except.bind]

theorem map_eq_error_iff {x : Except ε α} {f : α → β} {e : ε} :
    x.map f = .error e ↔ x = .error e := by
  cases x <;> simp [Except.map]

theorem map_eq_ok_iff {x : Except ε α} {f : α → β} {b : β} :
    x.map f = .ok b ↔ ∃ a, x = .ok a ∧ f a = b := by
  cases x with
  | error e => simp [Except.map]
  | ok a => simp [Except.map]

theorem map_map {γ : Type} (f : α → β) (g : β → γ) (x : Except ε α) :
    (x.map f).map g = x.map (g ∘ f) := by
  cases x <;> rfl

theorem mapError_eq_ok_iff {x : Except ε α} {δ : Type} {f : ε → δ} {a : α} :
    x.mapError f = .ok a ↔ x = .ok a := by
  cases x <;> simp [Except.mapError]

/-- A check that does not throw is passed. -/
theorem guard_eq_ok_iff {c : Prop} [Decidable c] {e : ε} {f : PUnit → Except ε β}
    {rest : Except ε β} {b : β} :
    (if c then throw e >>= f else rest) = .ok b ↔ ¬ c ∧ rest = .ok b := by
  by_cases h : c
  · rw [if_pos h]
    exact iff_of_false (by rintro ⟨⟩) fun hb => hb.1 h
  · rw [if_neg h]
    exact ⟨fun hb => ⟨h, hb⟩, fun hb => hb.2⟩

/-- A branch other than the failing one was taken. -/
theorem ite_error_eq_ok_iff {c : Prop} [Decidable c] {x : Except ε β} {e : ε} {b : β} :
    (if c then x else .error e) = .ok b ↔ c ∧ x = .ok b := by
  by_cases h : c <;> simp [h]

theorem toOption_eq_some_iff {x : Except ε α} {a : α} :
    x.toOption = some a ↔ x = .ok a := by
  cases x <;> simp [Except.toOption]

/-- A list is taken through a computation if every member is, each to the member
of the same place. -/
theorem mapM_eq_ok_iff {f : α → Except ε β} {xs : List α} {ys : List β} :
    xs.mapM f = .ok ys ↔ List.Forall₂ (fun x y => f x = .ok y) xs ys := by
  induction xs generalizing ys with
  | nil =>
      rw [List.mapM_nil]
      constructor
      · intro h
        obtain rfl : [] = ys := Except.ok.inj h
        exact .nil
      · intro h
        cases h
        rfl
  | cons x xs ih =>
      rw [List.mapM_cons]
      constructor
      · intro h
        obtain ⟨y, hy, h⟩ := bind_eq_ok_iff.mp h
        obtain ⟨zs, hzs, h⟩ := bind_eq_ok_iff.mp h
        obtain rfl : y :: zs = ys := Except.ok.inj h
        exact .cons hy (ih.mp hzs)
      · intro h
        obtain _ | ⟨hy, hzs⟩ := h
        exact bind_eq_ok_iff.mpr ⟨_, hy, bind_eq_ok_iff.mpr ⟨_, ih.mpr hzs, rfl⟩⟩

theorem exists_mapM_eq_ok {f : α → Except ε β} {xs : List α} (h : ∀ x ∈ xs, ∃ y, f x = .ok y) :
    ∃ ys, xs.mapM f = .ok ys := by
  induction xs with
  | nil => exact ⟨[], rfl⟩
  | cons x xs ih =>
      rw [List.forall_mem_cons] at h
      obtain ⟨⟨y, hy⟩, hxs⟩ := h
      obtain ⟨ys, hys⟩ := ih hxs
      exact ⟨y :: ys, mapM_eq_ok_iff.mpr (.cons hy (mapM_eq_ok_iff.mp hys))⟩

theorem exists_mapM_eq_some {f : α → Option β} {xs : List α} (h : ∀ x ∈ xs, ∃ y, f x = some y) :
    ∃ ys, xs.mapM f = some ys := by
  induction xs with
  | nil => exact ⟨[], rfl⟩
  | cons x xs ih =>
      rw [List.forall_mem_cons] at h
      obtain ⟨⟨y, hy⟩, hxs⟩ := h
      obtain ⟨ys, hys⟩ := ih hxs
      exact ⟨y :: ys, by simp [List.mapM_cons, hy, hys]⟩

/-- The failure of the whole is that of the first member that fails. -/
theorem mapM_eq_error_iff {f : α → Except ε β} {xs : List α} {e : ε} :
    xs.mapM f = .error e ↔ ∃ front x back, xs = front ++ x :: back ∧
      (∀ y ∈ front, ∃ b, f y = .ok b) ∧ f x = .error e := by
  induction xs with
  | nil =>
      rw [List.mapM_nil]
      refine iff_of_false (by rintro ⟨⟩) ?_
      rintro ⟨front, x, back, h, _⟩
      cases front <;> cases h
  | cons x xs ih =>
      rw [List.mapM_cons, bind_eq_error_iff]
      constructor
      · rintro (hx | ⟨b, hx, hrest⟩)
        · exact ⟨[], x, xs, rfl, by simp, hx⟩
        · obtain hxs | ⟨_, _, hpure⟩ := bind_eq_error_iff.mp hrest
          · obtain ⟨front, z, back, rfl, hfront, hz⟩ := ih.mp hxs
            exact ⟨x :: front, z, back, rfl, List.forall_mem_cons.mpr ⟨⟨b, hx⟩, hfront⟩, hz⟩
          · cases hpure
      · rintro ⟨front, z, back, h, hfront, hz⟩
        cases front with
        | nil =>
            obtain ⟨rfl, rfl⟩ := List.cons.inj h
            exact .inl hz
        | cons y front =>
            obtain ⟨rfl, rfl⟩ := List.cons.inj h
            obtain ⟨⟨b, hb⟩, hfront⟩ := List.forall_mem_cons.mp hfront
            exact .inr ⟨b, hb, bind_eq_error_iff.mpr (.inl (ih.mpr ⟨front, z, back, rfl, hfront, hz⟩))⟩

theorem exists_mem_of_mapM_eq_error {f : α → Except ε β} {xs : List α} {e : ε}
    (h : xs.mapM f = .error e) : ∃ x ∈ xs, f x = .error e := by
  obtain ⟨front, x, back, rfl, _, hx⟩ := mapM_eq_error_iff.mp h
  exact ⟨x, by simp, hx⟩

/-- Results are all there if none of them is a failure. -/
theorem mapM_id_eq_ok_iff {xs : List (Except ε α)} {ys : List α} :
    xs.mapM id = .ok ys ↔ xs = ys.map .ok := by
  rw [mapM_eq_ok_iff]
  induction xs generalizing ys with
  | nil => cases ys <;> simp
  | cons x xs ih =>
      cases ys with
      | nil => simp
      | cons y ys => rw [List.forall₂_cons, ih, List.map_cons, List.cons.injEq, id]

theorem mapM_id_map (f : α → β) (xs : List (Except ε α)) :
    (xs.map (·.map f)).mapM id = (xs.mapM id).map (List.map f) := by
  induction xs with
  | nil => rfl
  | cons x xs ih =>
      rw [List.map_cons, List.mapM_cons, List.mapM_cons, ih]
      cases x with
      | error e => rfl
      | ok a => cases xs.mapM id <;> rfl

/-- Of several failures it is the first that counts. -/
theorem mapM_id_eq_error_iff {xs : List (Except ε α)} {e : ε} :
    xs.mapM id = .error e ↔
      ∃ (front : List α) (back : List (Except ε α)), xs = front.map .ok ++ .error e :: back := by
  induction xs with
  | nil =>
      rw [List.mapM_nil]
      refine iff_of_false (by rintro ⟨⟩) ?_
      rintro ⟨front, back, h⟩
      cases front <;> cases h
  | cons x xs ih =>
      rw [List.mapM_cons, bind_eq_error_iff]
      constructor
      · rintro (hx | ⟨a, hx, hrest⟩)
        · exact ⟨[], xs, congrArg (· :: xs) hx⟩
        · obtain hxs | ⟨_, _, hpure⟩ := bind_eq_error_iff.mp hrest
          · obtain ⟨front, back, rfl⟩ := ih.mp hxs
            exact ⟨a :: front, back, congrArg (· :: _) hx⟩
          · cases hpure
      · rintro ⟨front, back, h⟩
        cases front with
        | nil => exact .inl (List.cons.inj h).1
        | cons a front =>
            obtain ⟨hx, hxs⟩ := List.cons.inj h
            exact .inr ⟨a, hx, bind_eq_error_iff.mpr (.inl (ih.mpr ⟨front, back, hxs⟩))⟩

variable {R : α → β → Prop}

/-- A computation that gives back what it accepts does so for lists. -/
theorem mapM_eq_ok_iff_self {f : α → Except ε α} {p : α → Prop}
    (h : ∀ x y, f x = .ok y ↔ y = x ∧ p x) {xs ys : List α} :
    xs.mapM f = .ok ys ↔ ys = xs ∧ ∀ x ∈ xs, p x := by
  rw [mapM_eq_ok_iff]
  induction xs generalizing ys with
  | nil => simp
  | cons x xs ih =>
      cases ys with
      | nil => simp
      | cons y ys =>
          rw [List.forall₂_cons, h, ih, List.cons.injEq, List.forall_mem_cons]
          exact and_and_and_comm

theorem exists_of_forall₂_left {xs : List α} {ys : List β} (h : List.Forall₂ R xs ys) {x : α}
    (hx : x ∈ xs) : ∃ y ∈ ys, R x y := by
  induction h with
  | nil => exact absurd hx List.not_mem_nil
  | @cons a b xs ys hab _ ih =>
      obtain rfl | hx := List.mem_cons.mp hx
      · exact ⟨b, List.mem_cons_self, hab⟩
      · obtain ⟨y, hy, hr⟩ := ih hx
        exact ⟨y, List.mem_cons_of_mem b hy, hr⟩

theorem exists_of_forall₂_right {xs : List α} {ys : List β} (h : List.Forall₂ R xs ys) {y : β}
    (hy : y ∈ ys) : ∃ x ∈ xs, R x y :=
  exists_of_forall₂_left h.flip hy

/-- Two lists that belong to one list member by member look the same if related members do. -/
theorem map_eq_map_of_forall₂ {γ δ : Type} {Q : α → γ → Prop} {f : β → δ} {g : γ → δ}
    {xs : List α} {ys : List β} {zs : List γ} (hys : List.Forall₂ R xs ys)
    (hzs : List.Forall₂ Q xs zs) (h : ∀ x ∈ xs, ∀ y z, R x y → Q x z → f y = g z) :
    ys.map f = zs.map g := by
  induction hys generalizing zs with
  | nil =>
      cases hzs
      rfl
  | @cons x y xs ys hxy _ ih =>
      obtain _ | ⟨hxz, hzs⟩ := hzs
      obtain ⟨hx, hxs⟩ := List.forall_mem_cons.mp h
      rw [List.map_cons, List.map_cons, hx y _ hxy hxz, ih hzs hxs]

end Plain

namespace Traced

variable {α β : Type}

@[simp] theorem result_pure (a : α) : (pure a : Traced α).result = .ok a := rfl

@[simp] theorem result_ofExcept (x : Except Failure α) : (ofExcept x).result = x := rfl

@[simp] theorem result_fail (failure : Failure) :
    (fail failure : Traced α).result = .error failure := rfl

@[simp] theorem result_writeAll (lines : List LogLine) : (writeAll lines).result = .ok () := rfl

@[simp] theorem result_write (level : LogLevel) (message : String) :
    (write level message).result = .ok () := rfl

/-- The result of a sequence does not depend on what its parts log. -/
theorem result_bind (x : Traced α) (f : α → Traced β) :
    (x >>= f).result = x.result >>= fun a => (f a).result := by
  obtain ⟨log, reads, result⟩ := x
  cases result with
  | error failure => rfl
  | ok a => rfl

theorem result_bind_of_ok {x : Traced α} {a : α} (h : x.result = .ok a) (f : α → Traced β) :
    (x >>= f).result = (f a).result := by
  rw [result_bind, h]
  rfl

theorem result_bind_eq_ok_iff {x : Traced α} {f : α → Traced β} {b : β} :
    (x >>= f).result = .ok b ↔ ∃ a, x.result = .ok a ∧ (f a).result = .ok b := by
  rw [result_bind, bind_eq_ok_iff]

theorem write_bind (level : LogLevel) (message : String) (f : Unit → Traced β) :
    (write level message >>= f) = ⟨⟨level, message⟩ :: (f ()).log, (f ()).reads, (f ()).result⟩ :=
  congrArg (Traced.mk _ · _) (Nat.zero_add _)

/-- A read that succeeds counts, and leaves no other trace. -/
theorem read_ok_bind (a : α) (f : α → Traced β) :
    (read (.ok a) >>= f) = ⟨(f a).log, (f a).reads + 1, (f a).result⟩ :=
  congrArg (Traced.mk _ · _) (Nat.add_comm 1 _)

theorem read_error_bind (failure : Failure) (f : α → Traced β) :
    (read (.error failure) >>= f) = fail failure := rfl

end Traced

namespace Update

variable {σ α β : Type} {x : Update σ α} {s : σ}

theorem bind_apply (x : Update σ α) (f : α → Update σ β) (s : σ) :
    (x >>= f) s = (x s).andThen f := rfl

theorem gets_bind_apply (f : σ → α) (k : α → Update σ β) (s : σ) :
    (gets f >>= k) s = k (f s) s := by
  rw [bind_apply, Outcome.andThen]
  simp [gets, reading, pure, Traced.pure]

theorem bind_pure_apply (x : Update σ α) (f : α → β) (s : σ) :
    (x >>= fun a => pure (f a)) s =
      ⟨⟨(x s).log, (x s).reads, (x s).result.map f⟩, (x s).state⟩ := by
  rw [bind_apply, Outcome.andThen]
  cases (x s).result <;> simp [Except.map, pure, Traced.pure]

theorem result_bind (x : Update σ α) (f : α → Update σ β) (s : σ) :
    ((x >>= f) s).result = (x s).result >>= fun a => (f a (x s).state).result := by
  rw [bind_apply, Outcome.andThen]
  cases (x s).result <;> rfl

theorem state_bind_of_error {failure : Failure} (h : (x s).result = .error failure)
    (f : α → Update σ β) : ((x >>= f) s).state = (x s).state := by
  rw [bind_apply, Outcome.andThen, h]

theorem state_bind_of_ok {a : α} (h : (x s).result = .ok a) (f : α → Update σ β) :
    ((x >>= f) s).state = (f a (x s).state).state := by
  rw [bind_apply, Outcome.andThen, h]

/-- The state that an update ends in, unless it fails. -/
def reached (x : Update σ α) (s : σ) : Except Failure σ :=
  (x s).result.map fun _ => (x s).state

theorem reached_bind (x : Update σ α) (y : Update σ β) (s : σ) :
    (x >>= fun _ => y).reached s = x.reached s >>= y.reached := by
  rw [reached, reached, bind_apply, Outcome.andThen]
  cases (x s).result <;> rfl

theorem reached_lift_bind (x : Traced α) (f : α → Update σ β) (s : σ) :
    (lift x >>= f).reached s = x.result >>= fun a => (f a).reached s := by
  rw [reached, bind_apply, Outcome.andThen, lift, reading]
  cases x.result <;> rfl

end Update

end CpkProvenance
