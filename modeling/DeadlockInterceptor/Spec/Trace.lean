import DeadlockInterceptor.Impl.Monitoring

/-!
This module contains the meaning of the tracked state: each map of the tracker as a function of the
trace of futex calls that led to it. The threads are of any type, the trace of the target names them by
their tid.
-/

universe u

namespace DeadlockInterceptor

structure Call (θ : Type u) where
  kind : FutexCall
  thread : θ
  addr : Addr
  deriving DecidableEq

abbrev Trace (θ : Type u) := List (Call θ)

def Event.toCall (e : Event) : Call Pid := ⟨e.call, e.tid, e.addr⟩

namespace Call

variable {θ : Type u} (c : Call θ)

def Wakes (a : Addr) : Prop := c.kind = .wake ∧ c.addr = a

def WakeBy (t : θ) : Prop := c.kind = .wake ∧ c.thread = t

def WaitOf (t : θ) (a : Addr) : Prop := c.kind = .wait ∧ c.thread = t ∧ c.addr = a

instance (a : Addr) : Decidable (c.Wakes a) := inferInstanceAs (Decidable (_ ∧ _))

variable [DecidableEq θ]

instance (t : θ) : Decidable (c.WakeBy t) := inferInstanceAs (Decidable (_ ∧ _))

instance (t : θ) (a : Addr) : Decidable (c.WaitOf t a) := inferInstanceAs (Decidable (_ ∧ _))

end Call

namespace Trace

variable {θ : Type u} (tr : Trace θ)

def lastWaker (a : Addr) : Option θ := (tr.reverse.find? fun c => c.Wakes a).map Call.thread

def wakeCount (a : Addr) : Nat := tr.countP fun c => c.Wakes a

def HasWoken (t : θ) (a : Addr) : Prop := ∃ c ∈ tr, c.WakeBy t ∧ c.addr = a

/--
`t` did a wait on a futex whose last wake before it was by `u`, another thread, and `u` did no wake of
any futex since.
-/
def WaitsFor (t u : θ) : Prop :=
  ∃ pre c post, tr = pre ++ c :: post ∧ c.WaitOf t c.addr ∧ lastWaker pre c.addr = some u ∧ u ≠ t ∧
    ∀ d ∈ post, ¬d.WakeBy u

variable [DecidableEq θ]

/--
The number of waits of `t` on `a` after the last of all wakes of `a` and all wakes by `t`.
-/
def pendingWaits (t : θ) (a : Addr) : Nat :=
  (tr.reverse.takeWhile fun c => ¬(c.Wakes a ∨ c.WakeBy t)).countP fun c => c.WaitOf t a

section append

variable (c : Call θ) (t u : θ) (a : Addr)

omit [DecidableEq θ] in
theorem lastWaker_append :
    lastWaker (tr ++ [c]) a = if c.Wakes a then some c.thread else lastWaker tr a := by
  simp only [lastWaker, List.reverse_append, List.reverse_singleton, List.singleton_append,
    List.find?_cons]
  split
  . next h =>
    simp only [decide_eq_true_eq] at h
    simp [h]
  . next h =>
    simp only [decide_eq_false_iff_not] at h
    simp [h]

omit [DecidableEq θ] in
theorem wakeCount_append :
    wakeCount (tr ++ [c]) a = wakeCount tr a + if c.Wakes a then 1 else 0 := by
  simp only [wakeCount, List.countP_append, List.countP_singleton, decide_eq_true_eq]

omit [DecidableEq θ] in
theorem hasWoken_append :
    HasWoken (tr ++ [c]) t a ↔ HasWoken tr t a ∨ (c.WakeBy t ∧ c.addr = a) := by
  simp only [HasWoken, List.mem_append, List.mem_singleton, or_and_right, exists_or,
    exists_eq_left]

omit [DecidableEq θ] in
theorem waitsFor_append :
    WaitsFor (tr ++ [c]) t u
      ↔
    (WaitsFor tr t u ∧ ¬c.WakeBy u) ∨
      (c.WaitOf t c.addr ∧ lastWaker tr c.addr = some u ∧ u ≠ t) := by
  constructor
  . rintro ⟨pre, d, post, heq, hd, hlast, hne, hpost⟩
    -- the wait is the new call, or there is a part of the old trace behind it
    cases post using List.reverseRecOn with
    | nil =>
      obtain ⟨rfl, hcd⟩ := List.append_inj' heq rfl
      obtain rfl := List.singleton_inj.mp hcd
      exact .inr ⟨hd, hlast, hne⟩
    | append_singleton post x =>
      rw [← List.cons_append, ← List.append_assoc] at heq
      obtain ⟨rfl, hcx⟩ := List.append_inj' heq rfl
      obtain rfl := List.singleton_inj.mp hcx
      refine .inl ⟨⟨pre, d, post, rfl, hd, hlast, hne, ?_⟩, hpost c (by simp)⟩
      intro x hx
      exact hpost x (List.mem_append_left _ hx)
  . rintro (⟨⟨pre, d, post, rfl, hd, hlast, hne, hpost⟩, hc⟩ | ⟨hc, hlast, hne⟩)
    . refine ⟨pre, d, post ++ [c], by simp, hd, hlast, hne, ?_⟩
      intro x hx
      rcases List.mem_append.mp hx with hx | hx
      . exact hpost x hx
      . rw [List.mem_singleton.mp hx]
        exact hc
    . exact ⟨tr, c, [], rfl, hc, hlast, hne, by simp⟩

theorem pendingWaits_append :
    pendingWaits (tr ++ [c]) t a
      =
    if c.Wakes a ∨ c.WakeBy t then
      0
    else
      pendingWaits tr t a + if c.WaitOf t a then 1 else 0 := by
  simp only [pendingWaits, List.reverse_append, List.reverse_singleton, List.singleton_append,
    List.takeWhile_cons, decide_eq_true_eq]
  by_cases h : c.Wakes a ∨ c.WakeBy t
  . rw [if_neg (not_not.mpr h), if_pos h, List.countP_nil]
  . rw [if_pos h, if_neg h, List.countP_cons]
    simp only [decide_eq_true_eq]

end append

end Trace

end DeadlockInterceptor
