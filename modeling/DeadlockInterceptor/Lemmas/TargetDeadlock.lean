import DeadlockInterceptor.Lemmas.TraceReading
import DeadlockInterceptor.Spec.FutexMutex

/-!
This module contains which deadlocks of the target the wait-for graph shows. The tracker learns the owner
of a mutex from wakes only, so a deadlock is seen when its threads have made themselves known by wakes,
and a deadlock of threads that acquired their mutexes without a system call is not.
-/

open DirectedGraph

namespace DeadlockInterceptor

namespace Program

/--
`u` has announced itself to `t`: at some wait of `t` the last wake of the futex was by `u`, and `u` did
no wake of any futex since.
-/
def Announced (tr : Trace Pid) (t u : Pid) : Prop :=
  ∃ pre c post, tr = pre ++ c :: post ∧ c.WaitOf t c.addr ∧ Trace.lastWaker pre c.addr = some u ∧
    ∀ d ∈ post, ¬d.WakeBy u

theorem waitsFor_iff_announced {tr : Trace Pid} {t u : Pid} (hne : u ≠ t) :
    tr.WaitsFor t u ↔ Announced tr t u := by
  simp only [Trace.WaitsFor, Announced, hne, ne_eq, not_false_eq_true, true_and]

theorem Deadlock.next_ne {p : Program} {ts : List (Pid × Mutex)} (h : p.Deadlock ts) (i : Nat)
    (hi : i < ts.length) :
    (succAt ts i hi).1 ≠ ts[i].1 := by
  have htwo := h.two_le
  intro heq
  have hinj := (List.nodup_iff_injective_getElem.mp h.nodup)
  have hidx : (⟨(i + 1) % ts.length, by simpa using Nat.mod_lt _ (by omega)⟩ :
      Fin (ts.map Prod.fst).length) = ⟨i, by simpa using hi⟩ := by
    apply hinj
    simpa [succAt] using heq
  have hmod : (i + 1) % ts.length = i := congrArg Fin.val hidx
  cases Nat.lt_or_ge (i + 1) ts.length with
  | inl hlt =>
    rw [Nat.mod_eq_of_lt hlt] at hmod
    omega
  | inr hge =>
    rw [show i + 1 = ts.length by omega, Nat.mod_self] at hmod
    omega

/--
A deadlock of the target is a cycle of the wait-for graph exactly if each of its threads has announced
itself to the thread that is blocked on its mutex.
-/
theorem deadlock_isCycle_iff {p : Program} {tr : Trace Pid} (hrun : p.Run tr)
    {ts : List (Pid × Mutex)} (hdead : p.Deadlock ts) {evs : List Event}
    (hevs : evs.map Event.toCall = tr) :
    IsCycle (GlobalState.run evs).Waits (ts.map fun tm => (GlobalState.run evs).identifier tm.1)
      ↔
    ∀ (i : Nat) (h : i < ts.length),
      Announced tr ts[i].1 (succAt ts i h).1 := by
  have hjunk : ∀ e ∈ evs, junkAddr e.addr = false := by
    intro e he
    exact hrun.addr_not_junk e.toCall (hevs ▸ List.mem_map_of_mem he)
  have hreads := (GlobalState.reads_run evs hjunk).2
  rw [hevs] at hreads
  have hedge : ∀ (i : Nat) (h : i < ts.length),
      (GlobalState.run evs).Waits ((GlobalState.run evs).identifier ts[i].1)
        ((GlobalState.run evs).identifier (succAt ts i h).1)
        ↔
      Announced tr ts[i].1 (succAt ts i h).1 := by
    intro i hi
    rw [hreads.waits, waitsFor_iff_announced (hdead.next_ne i hi)]
  constructor
  . intro hc i hi
    have := hc.edge i (by simpa using hi)
    rw [succAt_map, List.getElem_map] at this
    exact (hedge i hi).mp this
  . intro h
    refine ⟨?_, ?_⟩
    . have htwo := hdead.two_le
      simp only [ne_eq, List.map_eq_nil_iff]
      rintro rfl
      simp at htwo
    . intro i hi
      simp only [List.length_map] at hi
      rw [succAt_map, List.getElem_map]
      exact (hedge i hi).mpr (h i hi)

section abba

def mutexA : Mutex := ⟨0x10000, by decide⟩

def mutexB : Mutex := ⟨0x10010, by decide⟩

def abba : Program where
  holder := Function.update (Function.update (fun _ => none) mutexA (some 1)) mutexB (some 2)
  queue := Function.update (Function.update (fun _ => []) mutexB [1]) mutexA [2]
  phase :=
    Function.update (Function.update (Function.update (Function.update (fun _ => .running) 1 .running) 2
      .running) 1 (.blocked mutexB)) 2 (.blocked mutexA)

theorem abba_run : abba.Run [⟨.wait, 1, mutexB⟩, ⟨.wait, 2, mutexA⟩] := by
  have h1 := Run.silent .init (.acquire (t := 1) (m := mutexA) (.inl rfl) rfl)
  have h2 := Run.silent h1 (.acquire (t := 2) (m := mutexB) (.inl rfl) rfl)
  have h3 := Run.call h2 (.block (t := 1) (u := 2) (m := mutexB) (.inl rfl) rfl)
  exact Run.call h3 (.block (t := 2) (u := 1) (m := mutexA) (.inl rfl) rfl)

theorem abba_deadlock : abba.Deadlock [(1, mutexA), (2, mutexB)] where
  two_le := by decide
  nodup := by decide
  holds := by decide
  blocked := by
    intro i hi
    match i, hi with
    | 0, _ => exact (by decide : (1 : Pid) ∈ abba.queue mutexB)
    | 1, _ => exact (by decide : (2 : Pid) ∈ abba.queue mutexA)

theorem deadlock_isCycle_iff_abba :
    abba.Run [⟨.wait, 1, mutexB⟩, ⟨.wait, 2, mutexA⟩] ∧
      abba.Deadlock [(1, mutexA), (2, mutexB)] ∧
      (IsCycle
          (GlobalState.run [⟨.wait, 1, mutexB, .bare⟩, ⟨.wait, 2, mutexA, .bare⟩]).Waits
          ([((1 : Pid), mutexA), (2, mutexB)].map fun tm =>
            (GlobalState.run [⟨.wait, 1, mutexB, .bare⟩, ⟨.wait, 2, mutexA, .bare⟩]).identifier
              tm.1)
        ↔
      ∀ (i : Nat) (h : i < [((1 : Pid), mutexA), (2, mutexB)].length),
        Announced [⟨.wait, 1, mutexB⟩, ⟨.wait, 2, mutexA⟩]
          [((1 : Pid), mutexA), (2, mutexB)][i].1
          (succAt [((1 : Pid), mutexA), (2, mutexB)] i h).1) :=
  ⟨abba_run, abba_deadlock, deadlock_isCycle_iff abba_run abba_deadlock rfl⟩

/-- The AB-BA deadlock of two threads leaves no edge in the wait-for graph at all. -/
theorem exists_unseenDeadlock :
    ¬∀ (p : Program) (tr : Trace Pid), p.Run tr → ∀ ts, p.Deadlock ts →
      ∀ evs, evs.map Event.toCall = tr →
        IsCycle (GlobalState.run evs).Waits
          (ts.map fun tm => (GlobalState.run evs).identifier tm.1) := by
  intro h
  have hcycle := h abba _ abba_run _ abba_deadlock
    [⟨.wait, 1, mutexB, .bare⟩, ⟨.wait, 2, mutexA, .bare⟩] rfl
  exact absurd (hcycle.edge 0 (by decide)) (by decide)

end abba

end Program

end DeadlockInterceptor
