/-
# Programs that draw random values

A program that asks a generator for values is a function of all the values it will be
given. `Always` says that a result has a property whatever they are; it goes through
sequencing, loops, and a first attempt with a second one behind it.
-/

import Mathlib.Data.List.Basic

namespace Btx.Util

/-- A program over the values that a generator will give, one after another. -/
abbrev Choices (α : Type) := StateM (ℕ → ℕ) α

namespace Choices

variable {α β : Type}

/-- A value between two bounds, both included. -/
def between (low high : ℕ) : Choices ℕ :=
  fun draws => (low + draws 0 % (high - low + 1), fun n => draws (n + 1))

/-- One of a list, if there is one. -/
def pick (l : List α) : Choices (Option α) := do
  if l.isEmpty then pure none
  else
    let i ← between 0 (l.length - 1)
    pure l[i]?

/-- The result of the first program, or else that of the second. -/
def orElse (first : Choices (Option α)) (second : Choices α) : Choices α := do
  match ← first with
  | some a => pure a
  | none => second

/-- The result has a property, whatever is drawn. -/
def Always (m : Choices α) (P : α → Prop) : Prop := ∀ draws, P (m draws).1

variable {m : Choices α} {f : α → Choices β} {P Q : α → Prop} {R : β → Prop} {low high : ℕ}

theorem Always.mono (h : Always m P) (hPQ : ∀ a, P a → Q a) : Always m Q :=
  fun draws => hPQ _ (h draws)

theorem always_pure {a : α} (h : P a) : Always (pure a) P := fun _ => h

theorem Always.bind (h : Always m P) (hf : ∀ a, P a → Always (f a) R) : Always (m >>= f) R :=
  fun draws => hf _ (h draws) _

theorem always_between (h : low ≤ high) :
    Always (between low high) fun n => low ≤ n ∧ n ≤ high := by
  intro draws
  have hmod : draws 0 % (high - low + 1) < high - low + 1 := Nat.mod_lt _ (Nat.succ_pos _)
  change low ≤ low + _ % (high - low + 1) ∧ low + _ % (high - low + 1) ≤ high
  omega

theorem always_pick (l : List α) :
    Always (pick l) fun r => (∀ a, r = some a → a ∈ l) ∧ (r = none → l = []) := by
  unfold pick
  split_ifs with hempty
  · exact always_pure ⟨by simp, fun _ => List.isEmpty_iff.1 hempty⟩
  · refine (always_between (Nat.zero_le _)).bind fun i hi => always_pure ?_
    have hlength := List.length_pos_of_ne_nil fun hnil => hempty (List.isEmpty_iff.2 hnil)
    refine ⟨fun a ha => List.mem_of_getElem? ha, fun hnone => ?_⟩
    rw [List.getElem?_eq_none_iff] at hnone
    omega

theorem Always.orElse {first : Choices (Option α)} {failed : Prop}
    (h : Always first fun r => (∀ a, r = some a → P a) ∧ (r = none → failed))
    (hsecond : failed → Always m P) : Always (orElse first m) P := by
  refine h.bind fun r hr => ?_
  cases r with
  | some a => exact always_pure (hr.1 a rfl)
  | none => exact hsecond (hr.2 rfl)

end Choices
end Btx.Util
