import DeadlockInterceptor.Lemmas.Step

/-!
This module contains that the identifiers of a run name the threads of the target one to one: the name
cache fixes the identifier of a thread at its first use, and the decimal tid at the end of an identifier
tells the threads apart whatever text stands before it.
-/

namespace DeadlockInterceptor

theorem eq_minus_or_isDigit_of_mem_toStr {n : Int} {c : Char} (h : c ∈ toStr n) : c = '-' ∨ c.isDigit := by
  have hdigit : ∀ c ∈ Nat.toDigits 10 n.natAbs, c.isDigit := fun c hc =>
    Nat.isDigit_of_mem_toDigits (by omega) (by omega) hc
  unfold toStr at h
  split at h
  . rcases List.mem_cons.mp h with rfl | h
    . exact .inl rfl
    . exact .inr (hdigit c h)
  . exact .inr (hdigit c h)

theorem toStr_ne_bracket {n : Int} {c : Char} (h : c ∈ toStr n) : c ≠ '[' := by
  rintro rfl
  exact absurd (eq_minus_or_isDigit_of_mem_toStr h) (by decide)

theorem toDigits_injective : Function.Injective (Nat.toDigits 10) := by
  intro m n h
  have := congrArg (Nat.ofDigitChars 10 · 0) h
  simpa only [Nat.ofDigitChars_ten_toDigits] using this

theorem toStr_injective : Function.Injective toStr := by
  intro m n h
  have hminus : ∀ k : Nat, ∀ l, '-' :: l ≠ Nat.toDigits 10 k := by
    intro k l heq
    have hmem : '-' ∈ Nat.toDigits 10 k := heq ▸ List.mem_cons_self
    exact absurd (Nat.isDigit_of_mem_toDigits (by omega) (by omega) hmem) (by decide)
  unfold toStr at h
  split at h
  . split at h
    . have := toDigits_injective (List.cons.inj h).2
      omega
    . exact absurd h (hminus _ _)
  . split at h
    . exact absurd h.symm (hminus _ _)
    . have := toDigits_injective h
      omega

theorem identifierOf_injective {name name' : Str} {t t' : Pid}
    (h : identifierOf name t = identifierOf name' t') : t = t' := by
  unfold identifierOf at h
  have hdrop := List.append_cancel_right h
  have hsuffix : ∀ (name : Str) (t : Pid),
      (name ++ ['['] ++ toStr t).reverse.takeWhile (· ≠ '[') = (toStr t).reverse := by
    intro name t
    rw [List.reverse_append, List.takeWhile_append_of_pos]
    . simp
    . intro c hc
      simpa using toStr_ne_bracket (List.mem_reverse.mp hc)
  have hrev := congrArg (fun l => (List.reverse l).takeWhile (· ≠ '[')) hdrop
  simp only [hsuffix, List.reverse_inj] at hrev
  exact toStr_injective hrev

namespace GlobalState

variable (s : GlobalState)

/--
The identifier of a thread as the cache holds it, for a thread that has not been named yet the one it
would get without `/proc`.
-/
def identifier (tid : Pid) : ThreadName := (s.threadIdentifier Env.bare.proc tid).1

theorem identifier_injective : Function.Injective s.identifier := by
  intro t t' h
  exact identifierOf_injective h

def Known (tid : Pid) (name : ThreadName) : Prop :=
  ∃ info, s.threadInfoCache.lookup tid = some info ∧ identifierOf info.name tid = name

variable {s}

theorem Known.identifier_eq {tid : Pid} {name : ThreadName} (h : s.Known tid name) :
    s.identifier tid = name := by
  obtain ⟨info, hinfo, hname⟩ := h
  simp only [identifier, threadIdentifier, getThreadIdentifier]
  rw [getThreadName_of_cached hinfo]
  exact hname

theorem known_threadIdentifier (s : GlobalState) (proc : ProcFs) (tid : Pid) :
    (s.threadIdentifier proc tid).2.Known tid (s.threadIdentifier proc tid).1 := by
  obtain ⟨info, hinfo, hname⟩ := getThreadName_cached s.targetPid proc tid s.threadInfoCache
  exact ⟨info, hinfo, by rw [hname]; rfl⟩

theorem Known.threadIdentifier {tid : Pid} {name : ThreadName} (h : s.Known tid name)
    (proc : ProcFs) (tid' : Pid) : (s.threadIdentifier proc tid').2.Known tid name := by
  obtain ⟨info, hinfo, hname⟩ := h
  refine ⟨info, ?_, hname⟩
  simp only [GlobalState.threadIdentifier, getThreadIdentifier, getThreadName]
  split
  . exact hinfo
  . next hnone =>
    rw [AList.lookup_insert_ne]
    . exact hinfo
    . rintro rfl
      rw [hinfo] at hnone
      exact absurd hnone (by simp)

theorem Known.of_cache_eq {s' : GlobalState} {tid : Pid} {name : ThreadName} (h : s.Known tid name)
    (hc : s'.threadInfoCache = s.threadInfoCache) : s'.Known tid name := by
  obtain ⟨info, hinfo, hname⟩ := h
  exact ⟨info, hc ▸ hinfo, hname⟩

theorem Known.onWait {tid : Pid} {name : ThreadName} (h : s.Known tid name) (env : Env) (tid' : Pid)
    (a : Addr) : (s.onWait env tid' a).Known tid name := by
  unfold GlobalState.onWait
  split
  . exact h
  . exact (h.threadIdentifier env.proc tid').of_cache_eq rfl

theorem Known.onWake {tid : Pid} {name : ThreadName} (h : s.Known tid name) (env : Env) (tid' : Pid)
    (a : Addr) : (s.onWake env tid' a).Known tid name :=
  (h.threadIdentifier env.proc tid').of_cache_eq rfl

theorem Known.onLock {tid : Pid} {name : ThreadName} (h : s.Known tid name) (env : Env) (tid' : Pid)
    (a : Addr) : (s.onLock env tid' a).Known tid name := by
  unfold GlobalState.onLock
  split
  . exact h
  . exact (h.threadIdentifier env.proc tid').of_cache_eq rfl

theorem Known.step {tid : Pid} {name : ThreadName} (h : s.Known tid name) (e : Event) :
    (s.step e).Known tid name := by
  cases hcall : e.call with
  | wait =>
    rw [step_of_wait s hcall]
    exact h.onWait _ _ _
  | wake =>
    rw [step_of_wake s hcall]
    exact (h.onWake _ _ _).onLock _ _ _

theorem known_step_nameOf (s : GlobalState) {e : Event} (ha : junkAddr e.addr = false) :
    (s.step e).Known e.tid (s.nameOf e) := by
  have hknown := known_threadIdentifier s e.env.proc e.tid
  cases hcall : e.call with
  | wait =>
    rw [step_of_wait s hcall]
    simp only [GlobalState.onWait, ha]
    exact hknown.of_cache_eq rfl
  | wake =>
    rw [step_of_wake s hcall]
    refine Known.onLock ?_ _ _ _
    exact hknown.of_cache_eq rfl

structure IdentifierCall where
  tid : Pid
  proc : ProcFs

def answers (s : GlobalState) : List IdentifierCall → List (IdentifierCall × ThreadName)
  | [] => []
  | c :: calls =>
    let (name, s) := s.threadIdentifier c.proc c.tid
    (c, name) :: s.answers calls

def afterCalls (s : GlobalState) (calls : List IdentifierCall) : GlobalState :=
  calls.foldl (fun s c => (s.threadIdentifier c.proc c.tid).2) s

theorem map_fst_answers (s : GlobalState) (calls : List IdentifierCall) :
    (s.answers calls).map Prod.fst = calls := by
  induction calls generalizing s with
  | nil => rfl
  | cons c calls ih =>
    simp only [answers, List.map_cons]
    rw [ih]

theorem Known.afterCalls {tid : Pid} {name : ThreadName} (h : s.Known tid name)
    (calls : List IdentifierCall) : (s.afterCalls calls).Known tid name := by
  apply Run.foldl_invariant (I := fun s : GlobalState => s.Known tid name)
  . intro s c h
    exact h.threadIdentifier c.proc c.tid
  . exact h

theorem known_of_mem_answers {calls : List IdentifierCall} {p : IdentifierCall × ThreadName}
    (h : p ∈ s.answers calls) : (s.afterCalls calls).Known p.1.tid p.2 := by
  induction calls generalizing s with
  | nil => simp [answers] at h
  | cons c calls ih =>
    rcases List.mem_cons.mp h with rfl | h
    . exact (known_threadIdentifier s c.proc c.tid).afterCalls calls
    . exact ih h

theorem answers_eq_iff (s : GlobalState) (calls : List IdentifierCall)
    {p q : IdentifierCall × ThreadName} (hp : p ∈ s.answers calls) (hq : q ∈ s.answers calls) :
    p.2 = q.2 ↔ p.1.tid = q.1.tid := by
  have hpname := (known_of_mem_answers hp).identifier_eq
  have hqname := (known_of_mem_answers hq).identifier_eq
  constructor
  . intro h
    apply (s.afterCalls calls).identifier_injective
    rw [hpname, hqname, h]
  . intro h
    rw [← hpname, ← hqname, h]

def mimicked : IdentifierCall := ⟨2, ⟨fun _ => some ['a'], fun _ _ => none⟩⟩

def mimic : IdentifierCall := ⟨7, ⟨fun _ => some ['a', '[', '2', ']'], fun _ _ => none⟩⟩

theorem answers_eq_iff_mimic :
    identifierOf ['a'] 2 = identifierOf ['a', '[', '2', ']'] 7 ↔ mimicked.tid = mimic.tid :=
  answers_eq_iff init [mimicked, mimic] (p := (mimicked, identifierOf ['a'] 2))
    (q := (mimic, identifierOf ['a', '[', '2', ']'] 7)) (.head _) (.tail _ (.head _))

end GlobalState

end DeadlockInterceptor
