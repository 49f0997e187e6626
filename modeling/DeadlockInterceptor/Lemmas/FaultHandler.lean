import DeadlockInterceptor.Lemmas.PrivateMemory

/-!
This module contains what becomes of a fault in the shadow process. The handler copies a guarded page before it
replaces it, so the copy faults and the handler runs again, and it returns from a fault that is not its own.
-/

namespace DeadlockInterceptor

namespace Handling

open ShadowMemory

variable {page : PageSize} {mmapSucceeds : Bool} {h : Handling}

def Faults (page : PageSize) (h : Handling) : Prop := ∃ a, h.accesses page = some a ∧ h.protNone a = true

/--
A fault is handled without another one, the page is replaced by a copy, and the process does not go on with the
access if the page is none of the guarded ones.
-/
structure HandlesFault (page : PageSize) (mmapSucceeds : Bool) (m : ShadowMemory) (faultAddr : Addr) : Prop where
  noFault : ∀ n, ¬Faults page (run page mmapSucceeds (init m faultAddr) n)
  copies : m.shouldDuplicatePage (pageStart page faultAddr) = true → mmapSucceeds = true →
    ∃ n, (run page mmapSucceeds (init m faultAddr) n).frames = [] ∧
      (run page mmapSucceeds (init m faultAddr) n).protNone (pageStart page faultAddr) = false ∧
      Window.window (run page mmapSucceeds (init m faultAddr) n).memory (pageStart page faultAddr) page.size.toNat
        = Window.window m.memory (pageStart page faultAddr) page.size.toNat
  aborts : m.shouldDuplicatePage (pageStart page faultAddr) = false →
    ∀ n, (run page mmapSucceeds (init m faultAddr) n).frames ≠ []

theorem run_succ (h : Handling) (n : Nat) :
    run page mmapSucceeds h (n + 1) = step page mmapSucceeds (run page mmapSucceeds h n) :=
  Function.iterate_succ_apply' _ _ _

theorem step_check {m : ShadowMemory} {faultAddr : Addr} {rest : List Frame}
    (hduplicate : m.shouldDuplicatePage (pageStart page faultAddr) = true) :
    step page mmapSucceeds { m with frames := ⟨faultAddr, .check⟩ :: rest }
      =
    { m with frames := ⟨faultAddr, .copyOut⟩ :: rest } := by
  simp only [step, hduplicate, Bool.not_true, Bool.false_eq_true, if_false]

theorem step_copyOut {m : ShadowMemory} {faultAddr : Addr} {rest : List Frame}
    (hprot : m.protNone (pageStart page faultAddr) = true) :
    step page mmapSucceeds { m with frames := ⟨faultAddr, .copyOut⟩ :: rest }
      =
    { m with frames := ⟨pageStart page faultAddr, .check⟩ :: ⟨faultAddr, .copyOut⟩ :: rest } := by
  simp only [step, hprot, if_true]

/-- The handler of a fault on a guarded page is nested deeper with every second step, and changes nothing. -/
theorem run_guarded (mmapSucceeds : Bool) {m : ShadowMemory} {faultAddr : Addr} (hguarded : Guarded page m)
    (hduplicate : m.shouldDuplicatePage (pageStart page faultAddr) = true) (n : Nat) :
    ∃ a rest, pageStart page a = pageStart page faultAddr ∧ rest.length = n ∧
      run page mmapSucceeds (init m faultAddr) (2 * n) = { m with frames := ⟨a, .check⟩ :: rest } := by
  induction n with
  | zero => exact ⟨faultAddr, [], rfl, rfl, rfl⟩
  | succ n ih =>
    obtain ⟨a, rest, hpage, hlength, hrun⟩ := ih
    refine ⟨pageStart page a, ⟨a, .copyOut⟩ :: rest, ?_, ?_, ?_⟩
    . rw [pageStart_pageStart, hpage]
    . rw [List.length_cons, hlength]
    . rw [Nat.mul_succ, run_succ, run_succ, hrun, step_check, step_copyOut]
      . rw [hpage]
        exact hguarded.protNone hduplicate
      . rwa [hpage]

theorem exists_nested {m : ShadowMemory} {faultAddr : Addr} (hguarded : Guarded page m)
    (hduplicate : m.shouldDuplicatePage (pageStart page faultAddr) = true) (depth : Nat) :
    ∃ n, depth < (run page mmapSucceeds (init m faultAddr) n).frames.length := by
  obtain ⟨a, rest, -, hlength, hrun⟩ := run_guarded mmapSucceeds hguarded hduplicate depth
  refine ⟨2 * depth, ?_⟩
  rw [hrun, List.length_cons, hlength]
  exact Nat.lt_succ_self depth

theorem run_unguarded {m : ShadowMemory} {faultAddr : Addr}
    (hduplicate : m.shouldDuplicatePage (pageStart page faultAddr) = false) :
    run page mmapSucceeds (init m faultAddr) 1 = { m with frames := [] } := by
  change step page mmapSucceeds (init m faultAddr) = _
  simp only [init, step, hduplicate, Bool.not_false, if_true]

theorem not_handlesFault_of_guarded {m : ShadowMemory} (hguarded : Guarded page m) (faultAddr : Addr) :
    ¬HandlesFault page mmapSucceeds m faultAddr := by
  intro hhandles
  cases hduplicate : m.shouldDuplicatePage (pageStart page faultAddr) with
  | true =>
    obtain ⟨a, rest, hpage, -, hrun⟩ := run_guarded mmapSucceeds hguarded hduplicate 0
    apply hhandles.noFault 1
    rw [run_succ, hrun, step_check (by rwa [hpage])]
    refine ⟨pageStart page a, rfl, ?_⟩
    rw [hpage]
    exact hguarded.protNone hduplicate
  | false =>
    apply hhandles.aborts hduplicate 1
    rw [run_unguarded hduplicate]

/--
No fault is handled as it should be, whatever pages have been guarded.
-/
theorem not_handlesFault (page : PageSize) (env : GuardEnv) (locks : List UInt64) (memory : Memory)
    (protNone : Addr → Bool) (mmapSucceeds : Bool) (faultAddr : Addr) :
    ¬HandlesFault page mmapSucceeds (initializePrivateMemory page env locks ⟨memory, protNone, []⟩).2 faultAddr :=
  not_handlesFault_of_guarded (guarded_initializePrivateMemory page env locks rfl) faultAddr

theorem exists_unhandledFault : ¬∀ (page : PageSize) (env : GuardEnv) (locks : List UInt64) (memory : Memory)
    (protNone : Addr → Bool) (mmapSucceeds : Bool) (faultAddr : Addr),
    HandlesFault page mmapSucceeds (initializePrivateMemory page env locks ⟨memory, protNone, []⟩).2 faultAddr := by
  intro h
  have hhandles := h pageSize4096 ⟨true, fun _ => true⟩ [0x7f0000001234] (fun _ => 0) (fun _ => false) true
    0x7f0000001238
  exact not_handlesFault_of_guarded (guarded_initializePrivateMemory _ _ _ rfl) _ hhandles

end Handling

end DeadlockInterceptor
