import DeadlockInterceptor.Lemmas.Tracing
import DeadlockInterceptor.Lemmas.Cleanup
import DeadlockInterceptor.Lemmas.Identifiers
import DeadlockInterceptor.Spec.ThreadStatus

/-!
This module contains that what is read back from a status file is what the kernel has written, whatever name the thread
has given itself and however long the lines are that nobody looks for.
-/

namespace DeadlockInterceptor

open Text (Field)

section atoi

variable {n : Nat} {rest : Str}

theorem atoi_of_unsigned {s : Str} (hminus : '-' ∉ (s.dropWhile isSpace).head?)
    (hplus : '+' ∉ (s.dropWhile isSpace).head?) :
    atoi s
      =
    (max (-9223372036854775808) (min (Nat.ofDigitChars 10 ((s.dropWhile isSpace).takeWhile Char.isDigit) 0 : Int)
      9223372036854775807)).bmod 4294967296 := by
  simp only [atoi]
  split
  . next h =>
    rw [h] at hminus
    exact absurd rfl hminus
  . next h =>
    rw [h] at hplus
    exact absurd rfl hplus
  . rfl

theorem isDigit_head?_toDigits {c : Char} (hc : c ∈ (Nat.toDigits 10 n ++ rest).head?) : c.isDigit = true := by
  have hne : Nat.toDigits 10 n ≠ [] := Nat.toDigits_ne_nil
  rw [List.head?_append_of_ne_nil _ hne] at hc
  exact Nat.isDigit_of_mem_toDigits (by omega) (by omega) (List.mem_of_mem_head? hc)

theorem atoi_toDigits (space rest : Str) (hspace : ∀ c ∈ space, isSpace c) (hn : n < 2147483648)
    (hrest : ∀ c ∈ rest.head?, ¬c.isDigit) : atoi (space ++ (Nat.toDigits 10 n ++ rest)) = n := by
  have hdrop : (space ++ (Nat.toDigits 10 n ++ rest)).dropWhile isSpace = Nat.toDigits 10 n ++ rest := by
    apply Text.dropWhile_append_stop hspace
    intro c hc hsp
    have hdigit := isDigit_head?_toDigits hc
    revert hsp
    simp only [isSpace, Bool.or_eq_true, decide_eq_true_eq]
    rintro (((((rfl | rfl) | rfl) | rfl) | rfl) | rfl) <;> revert hdigit <;> decide
  have htake : (Nat.toDigits 10 n ++ rest).takeWhile Char.isDigit = Nat.toDigits 10 n :=
    Text.takeWhile_append_stop (fun c hc => Nat.isDigit_of_mem_toDigits (by omega) (by omega) hc) hrest
  have hclamp : max (-9223372036854775808) (min (n : Int) 9223372036854775807) = n := by omega
  rw [atoi_of_unsigned, hdrop, htake, Nat.ofDigitChars_ten_toDigits, hclamp]
  . apply Int.bmod_eq_of_le <;> omega
  . rw [hdrop]
    exact fun hc => absurd (isDigit_head?_toDigits hc) (by decide)
  . rw [hdrop]
    exact fun hc => absurd (isDigit_head?_toDigits hc) (by decide)

end atoi

section labelledLine

theorem hasLabel_append_iff (name : Str) (line : Str) :
    hasLabel (name ++ [':']) line = true ↔ line.take (name.length + 1) = name ++ [':'] := by
  simp [hasLabel]

theorem colon_mem_of_hasLabel (name : Str) {line : Str} (h : hasLabel (name ++ [':']) line = true) : ':' ∈ line := by
  rw [hasLabel_append_iff] at h
  exact List.mem_of_mem_take (h ▸ List.mem_append_right name List.mem_cons_self)

variable {fields : List Field}

theorem hasLabel_buffer_iff (f : Field) (name : Str) (hname : ':' ∉ name) (hle : name.length ≤ 254) :
    hasLabel (name ++ [':']) (f.buffer 254) = true ↔ f.label = name := by
  rw [hasLabel_append_iff, f.take_buffer_eq_iff hname hle]

theorem labelledLine_fieldLines (name : Str) (h : ∀ f ∈ fields, f.Readable 254) (hname : ':' ∉ name)
    (hle : name.length ≤ 254) :
    labelledLine (name ++ [':']) (Text.fieldLines fields)
      =
    (fields.find? fun f => f.label = name).map (Field.buffer 254) := by
  have hcolon : hasLabel (name ++ [':']) = fun line => decide (':' ∈ line ∧ hasLabel (name ++ [':']) line = true) := by
    funext line
    rw [Bool.eq_iff_iff, decide_eq_true_eq]
    exact ⟨fun hlabel => ⟨colon_mem_of_hasLabel name hlabel, hlabel⟩, And.right⟩
  have hfilter := Text.filter_buffers_fieldLines h
  have hlabel : hasLabel (name ++ [':']) ∘ Field.buffer 254 = fun f => decide (f.label = name) := by
    funext f
    rw [Function.comp_apply, Bool.eq_iff_iff, decide_eq_true_eq]
    exact hasLabel_buffer_iff f name hname hle
  calc labelledLine (name ++ [':']) (Text.fieldLines fields)
    _ = ((Text.buffers 254 (Text.fieldLines fields)).filter (':' ∈ ·)).find? (hasLabel (name ++ [':'])) := by
      rw [List.find?_filter, labelledLine]
      conv_lhs => rw [hcolon]
      simp only [decide_eq_true_eq]
    _ = (fields.map (Field.buffer 254)).find? (hasLabel (name ++ [':'])) := by rw [hfilter]
    _ = (fields.find? fun f => f.label = name).map (Field.buffer 254) := by rw [List.find?_map, hlabel]

end labelledLine

namespace ThreadStatus

variable (status : ThreadStatus)

theorem escape_length_le (name : Str) : (escape name).length ≤ 2 * name.length := by
  induction name with
  | nil => exact Nat.le_refl 0
  | cons c name ih =>
    simp only [escape, List.flatMap_cons, List.length_append, List.length_cons] at ih ⊢
    split_ifs <;> simp only [List.length_cons, List.length_nil] <;> omega

theorem readable_nameField {name : Str} (h : name.length ≤ 15) : (nameField name).Readable 254 := by
  left
  have hescape := escape_length_le name
  simp only [Field.line, nameField, List.length_append, List.length_cons, List.length_nil]
  omega

theorem fits_state (state : TaskState) : state.field.line.length ≤ 254 := by
  cases state <;> decide

theorem toDigits_length_le {n : Nat} (h : n < 2147483648) : (Nat.toDigits 10 n).length ≤ 10 :=
  (Nat.length_toDigits_le_iff (by omega) (by omega)).mpr (by omega)

theorem fits_tracer {tracerPid : Nat} (h : tracerPid < 2147483648) : (tracerField tracerPid).line.length ≤ 254 := by
  have hdigits := toDigits_length_le h
  simp only [Field.line, tracerField, tracerName, List.length_append, List.length_cons, List.length_nil]
  omega

theorem readable {f : Field} (hf : f ∈ status.fields) : f.Readable 254 := by
  simp only [fields, List.cons_append, List.mem_cons, List.mem_append, List.mem_map] at hf
  rcases hf with rfl | ⟨other, -, rfl⟩ | rfl | ⟨other, -, rfl⟩ | rfl | ⟨other, -, rfl⟩
  . exact readable_nameField status.name_le
  . exact other.readable
  . exact .inl (fits_state _)
  . exact other.readable
  . exact .inl (fits_tracer status.tracerPid_lt)
  . exact other.readable

theorem find?_state : (status.fields.find? fun f => f.label = stateName) = some status.state.field := by
  rw [List.find?_eq_some_iff_append]
  refine ⟨by simp [TaskState.field], _, _, rfl, ?_⟩
  intro f hf
  simp only [List.mem_cons, List.mem_map] at hf
  rcases hf with rfl | ⟨other, -, rfl⟩
  . simp [nameField, stateName]
  . simpa using other.ne_state

theorem find?_tracer : (status.fields.find? fun f => f.label = tracerName) = some (tracerField status.tracerPid) := by
  rw [List.find?_eq_some_iff_append]
  refine ⟨by simp [tracerField], nameField status.name :: status.before.map (·.toField) ++ status.state.field ::
    status.between.map (·.toField), status.after.map (·.toField), by simp [fields], ?_⟩
  intro f hf
  simp only [List.cons_append, List.mem_cons, List.mem_append, List.mem_map] at hf
  rcases hf with rfl | ⟨other, -, rfl⟩ | rfl | ⟨other, -, rfl⟩
  . simp [nameField, tracerName]
  . simpa using other.ne_tracer
  . simp [TaskState.field, stateName, tracerName]
  . simpa using other.ne_tracer

theorem labelledLine_state :
    labelledLine stateLabel status.text = some (status.state.field.line ++ ['\n']) := by
  have h := labelledLine_fieldLines stateName (fun f => status.readable) (by decide) (by decide)
  rw [find?_state, Option.map_some, Field.buffer_of_fits (fits_state _)] at h
  exact h

theorem labelledLine_tracer :
    labelledLine tracerLabel status.text = some ((tracerField status.tracerPid).line ++ ['\n']) := by
  have h := labelledLine_fieldLines tracerName (fun f => status.readable) (by decide) (by decide)
  rw [find?_tracer, Option.map_some, Field.buffer_of_fits (fits_tracer status.tracerPid_lt)] at h
  exact h

theorem atoi_tracerValue {tracerPid : Nat} (h : tracerPid < 2147483648) :
    atoi (((tracerField tracerPid).line ++ ['\n']).drop 10) = tracerPid :=
  atoi_toDigits ['\t'] ['\n'] (by simp [isSpace]) h (by simp)

theorem getTracerPid_text : getTracerPid (some status.text) = status.tracerPid := by
  simp only [getTracerPid, labelledLine_tracer, atoi_tracerValue status.tracerPid_lt]

theorem isTracedBy_text (getpid : Pid) : isTracedBy getpid (some status.text) = true ↔ status.tracerPid = getpid := by
  simp only [isTracedBy, labelledLine_tracer, atoi_tracerValue status.tracerPid_lt, decide_eq_true_eq]

theorem strchr_state_iff (state : TaskState) : strchr (state.field.line ++ ['\n']) 'T' = true ↔ state = .stopped := by
  cases state <;> decide

theorem isThreadStopped_text : isThreadStopped (some status.text) = true ↔ status.state = .stopped := by
  simp only [isThreadStopped, labelledLine_state, strchr_state_iff]

end ThreadStatus

namespace CleanupStatus

variable (s : CleanupStatus)

def step (line : Str) : CleanupStatus := (s.readState line).readTracer line

theorem step_of_ne {line : Str} (hstate : hasLabel stateLabel line = false)
    (htracer : hasLabel tracerLabel line = false) : s.step line = s := by
  simp [step, readState, readTracer, hstate, htracer]

theorem hasLabel_state_iff (f : Field) : hasLabel stateLabel (f.buffer 254) = true ↔ f.label = stateName :=
  hasLabel_buffer_iff f stateName (by decide) (by decide)

theorem hasLabel_tracer_iff (f : Field) : hasLabel tracerLabel (f.buffer 254) = true ↔ f.label = tracerName :=
  hasLabel_buffer_iff f tracerName (by decide) (by decide)

theorem foldl_step_of_ne {fields : List Field} (h : ∀ f ∈ fields, f.label ≠ stateName ∧ f.label ≠ tracerName) :
    (fields.map (Field.buffer 254)).foldl step s = s := by
  induction fields with
  | nil => rfl
  | cons f fields ih =>
    obtain ⟨hstate, htracer⟩ := h f List.mem_cons_self
    rw [List.map_cons, List.foldl_cons, step_of_ne, ih fun g hg => h g (List.mem_cons_of_mem f hg)]
    . rwa [Bool.eq_false_iff, ne_eq, hasLabel_state_iff]
    . rwa [Bool.eq_false_iff, ne_eq, hasLabel_tracer_iff]

theorem foldl_step_of_other (others : List OtherField) :
    ((others.map (·.toField)).map (Field.buffer 254)).foldl step s = s := by
  apply foldl_step_of_ne
  intro f hf
  obtain ⟨other, -, rfl⟩ := List.mem_map.mp hf
  exact ⟨other.ne_state, other.ne_tracer⟩

theorem step_state (state : TaskState) :
    s.step (state.field.buffer 254)
      =
    { s with
      stopped := s.stopped || state = .stopped
      zombie := s.zombie || state = .zombie
      running := s.running || (state ≠ .stopped && state ≠ .zombie) } := by
  have hstate : hasLabel stateLabel (state.field.buffer 254) = true := (hasLabel_state_iff state.field).mpr rfl
  have htracer : hasLabel tracerLabel (state.field.buffer 254) = false := by
    rw [Bool.eq_false_iff, ne_eq, hasLabel_tracer_iff]
    simp [TaskState.field, stateName, tracerName]
  have hrunning := strchr_of_hasLabel hstate
  rw [Field.buffer_of_fits (ThreadStatus.fits_state state)] at hstate htracer hrunning ⊢
  have hstopped := ThreadStatus.strchr_state_iff state
  have hzombie : strchr (state.field.line ++ ['\n']) 'Z' = true ↔ state = .zombie := by cases state <;> decide
  simp only [step, readState, readTracer, hstate, htracer, if_true, Bool.false_eq_true, if_false, hstopped, hzombie,
    hrunning, Bool.or_true]
  split_ifs with h h'
  . simp [h]
  . simp [h']
  . simp [h, h']

theorem step_tracer {tracerPid : Nat} (h : tracerPid < 2147483648) :
    s.step ((tracerField tracerPid).buffer 254) = { s with tracerPid := tracerPid } := by
  have hstate : hasLabel stateLabel ((tracerField tracerPid).buffer 254) = false := by
    rw [Bool.eq_false_iff, ne_eq, hasLabel_state_iff]
    simp [tracerField, stateName, tracerName]
  have htracer : hasLabel tracerLabel ((tracerField tracerPid).buffer 254) = true := by
    rw [hasLabel_tracer_iff]
    rfl
  simp only [step, readState, readTracer, hstate, htracer, if_true, Bool.false_eq_true, if_false]
  rw [Field.buffer_of_fits (ThreadStatus.fits_tracer h)]
  congr
  exact ThreadStatus.atoi_tracerValue h

theorem read_fieldLines {fields : List Field} (h : ∀ f ∈ fields, f.Readable 254) :
    read (Text.fieldLines fields) = (fields.map (Field.buffer 254)).foldl step {} := by
  rw [← Text.filter_buffers_fieldLines h, List.foldl_filter, read]
  congr 1
  funext s line
  split
  . rfl
  . next hcolon =>
    rw [decide_eq_true_eq] at hcolon
    apply step_of_ne
    . exact Bool.eq_false_iff.mpr fun hlabel => hcolon (colon_mem_of_hasLabel stateName hlabel)
    . exact Bool.eq_false_iff.mpr fun hlabel => hcolon (colon_mem_of_hasLabel tracerName hlabel)

theorem read_text (status : ThreadStatus) :
    read status.text
      =
    ⟨status.state = .stopped, status.state = .zombie, status.state ≠ .stopped && status.state ≠ .zombie,
      status.tracerPid⟩ := by
  have hname : ∀ f ∈ [nameField status.name], f.label ≠ stateName ∧ f.label ≠ tracerName := by
    simp [nameField, stateName, tracerName]
  have hfields : status.fields = [nameField status.name] ++ status.before.map (·.toField) ++ [status.state.field] ++
      status.between.map (·.toField) ++ [tracerField status.tracerPid] ++ status.after.map (·.toField) := by
    simp [ThreadStatus.fields]
  rw [ThreadStatus.text, read_fieldLines fun f => status.readable, hfields]
  simp only [List.map_append, List.foldl_append, foldl_step_of_other, foldl_step_of_ne _ hname]
  simp only [List.map_cons, List.map_nil, List.foldl_cons, List.foldl_nil, step_state,
    step_tracer _ status.tracerPid_lt]
  simp

end CleanupStatus

/--
What is read back from a status file is what has been written into it.
-/
theorem ThreadStatus.read_back (status : ThreadStatus) (getpid : Pid) :
    getTracerPid (some status.text) = status.tracerPid ∧
    (isTracedBy getpid (some status.text) = true ↔ status.tracerPid = getpid) ∧
    (isThreadStopped (some status.text) = true ↔ status.state = .stopped) ∧
    CleanupStatus.read status.text = ⟨status.state = .stopped, status.state = .zombie,
      status.state ≠ .stopped && status.state ≠ .zombie, status.tracerPid⟩ :=
  ⟨status.getTracerPid_text, status.isTracedBy_text getpid, status.isThreadStopped_text, CleanupStatus.read_text status⟩

section listThreads

theorem map_toStr_listThreads {entries : List Str} (h : ∀ name ∈ entries, name.head? = some '.' ∨
    ∃ n : Nat, n < 2147483648 ∧ name = toStr n) :
    (listThreads (some entries)).map toStr = entries.filter fun name => name.head? ≠ some '.' := by
  have hback : ∀ n : Nat, n < 2147483648 → toStr (atoi (toStr n)) = toStr n := by
    intro n hn
    have hatoi := atoi_toDigits [] [] (by simp) hn (by simp)
    rw [List.nil_append, List.append_nil] at hatoi
    have htoStr : toStr n = Nat.toDigits 10 n := by rw [toStr, if_neg (by omega), Int.natAbs_natCast]
    rw [htoStr, hatoi, htoStr]
  rw [listThreads, List.map_map]
  calc (entries.filter fun name => name.head? ≠ some '.').map (toStr ∘ atoi)
    _ = (entries.filter fun name => name.head? ≠ some '.').map id := by
      apply List.map_congr_left
      intro name hname
      rw [List.mem_filter, decide_eq_true_eq] at hname
      obtain ⟨n, hn, rfl⟩ := (h name hname.1).resolve_left hname.2
      exact hback n hn
    _ = entries.filter fun name => name.head? ≠ some '.' := List.map_id _

end listThreads

namespace Tracing

variable {env : TraceEnv} {getpid : Pid} {files : Tracing → Pid → Option Str}

theorem Describes.getTracerPid {t : Tracee} {file : Option Str} (h : Describes getpid t file) :
    (if getTracerPid file = -1 then none else some (Tracer.ofPid getpid (getTracerPid file)))
      =
    if t.alive then some t.tracer else none := by
  cases halive : t.alive with
  | false =>
    rw [h.gone halive]
    rfl
  | true =>
    obtain ⟨status, rfl, htracer, -, -⟩ := h.shown halive
    rw [status.getTracerPid_text, if_neg (by omega), htracer]
    rfl

theorem Describes.isThreadStopped {t : Tracee} {file : Option Str} (h : Describes getpid t file) :
    DeadlockInterceptor.isThreadStopped file = (t.alive && t.stopped && t.tracer = .nobody) := by
  cases halive : t.alive with
  | false =>
    rw [h.gone halive]
    rfl
  | true =>
    obtain ⟨status, rfl, -, -, hstopped⟩ := h.shown halive
    rw [Bool.eq_iff_iff, status.isThreadStopped_text, hstopped]
    simp

theorem Describes.isTracedBy {t : Tracee} {file : Option Str} (h : Describes getpid t file) :
    isTracedBy getpid file = (t.alive && t.tracer = .us) := by
  cases halive : t.alive with
  | false =>
    rw [h.gone halive]
    rfl
  | true =>
    obtain ⟨status, rfl, htracer, -, -⟩ := h.shown halive
    rw [Bool.eq_iff_iff, status.isTracedBy_text, ← htracer, Tracer.ofPid]
    split_ifs with hours hother <;> simp [hours]

theorem Describes.cleanup {t : Tracee} {content : Str} (h : Describes getpid t (some content)) :
    t.alive = true ∧ (CleanupStatus.read content).zombie = false ∧
      (CleanupStatus.read content).stopped = (t.stopped && t.tracer = .nobody) ∧
      Tracer.ofPid getpid (CleanupStatus.read content).tracerPid = t.tracer := by
  have halive : t.alive = true := by
    by_contra hdead
    cases h.gone (Bool.eq_false_iff.mpr hdead)
  obtain ⟨status, hfile, htracer, hzombie, hstopped⟩ := h.shown halive
  rw [Option.some.inj hfile, CleanupStatus.read_text]
  refine ⟨halive, by simp [hzombie], ?_, htracer⟩
  rw [Bool.eq_iff_iff]
  simp [hstopped]

section files

variable (h : ∀ s tid, Describes getpid (s.thread tid) (files s tid))

include h

theorem observe_bind_eq {α : Type} {f : Tracee → StateM Tracing α} {g : Option Str → StateM Tracing α}
    (hfg : ∀ t file, Describes getpid t file → f t = g file) (tid : Pid) :
    observe env tid >>= f = readStatus env files tid >>= g := by
  funext s
  exact congrFun (hfg _ _ (h (pause env s).2 tid)) (pause env s).2

theorem getTracer_eq (tid : Pid) : getTracer env tid = getTracerOfFiles env getpid files tid := by
  apply observe_bind_eq h
  exact fun t file hfile => congrArg pure hfile.getTracerPid.symm

theorem isThreadStopped_eq (tid : Pid) : isThreadStopped env tid = isThreadStoppedOfFiles env files tid := by
  apply observe_bind_eq h
  exact fun t file hfile => congrArg pure hfile.isThreadStopped.symm

theorem stillTraced_eq (opens : Pid → Bool) (allTids : List Pid) :
    stillTraced env opens allTids = stillTracedOfFiles env getpid files opens allTids := by
  induction allTids with
  | nil => rfl
  | cons tid allTids ih =>
    rw [stillTraced, stillTracedOfFiles, ih]
    apply observe_bind_eq h
    intro t file hfile
    rw [hfile.isTracedBy, Bool.and_assoc]

theorem cleanupStuckThread_eq (tid : Pid) :
    cleanupStuckThread env tid = cleanupStuckThreadOfFiles env getpid files tid := by
  rw [cleanupStuckThread, cleanupStuckThreadOfFiles]
  congr 1
  funext exists?
  cases exists? with
  | false => rfl
  | true =>
    rw [if_pos rfl, if_pos rfl]
    apply observe_bind_eq h
    intro t file hfile
    cases file with
    | none =>
      have hgone : t.alive = false := by
        by_contra halive
        obtain ⟨status, hstatus, -⟩ := hfile.shown (Bool.not_eq_false _ ▸ halive)
        cases hstatus
      rw [hgone]
      rfl
    | some content =>
      obtain ⟨halive, hzombie, hstopped, htracer⟩ := hfile.cleanup
      simp only [cleanupOfStatus, halive, hzombie, hstopped, htracer, Bool.not_false]

/--
The functions that decide by the tracer and the state of a thread do what they would do if these were read from the
status file of the thread.
-/
theorem eq_ofFiles (tid : Pid) (opens : Pid → Bool) (allTids : List Pid) :
    getTracer env tid = getTracerOfFiles env getpid files tid ∧
    isThreadStopped env tid = isThreadStoppedOfFiles env files tid ∧
    cleanupStuckThread env tid = cleanupStuckThreadOfFiles env getpid files tid ∧
    stillTraced env opens allTids = stillTracedOfFiles env getpid files opens allTids :=
  ⟨getTracer_eq h tid, isThreadStopped_eq h tid, cleanupStuckThread_eq h tid, stillTraced_eq h opens allTids⟩

end files

theorem describes_plain (t : Tracee) : Describes 2 t (if t.alive then some (plainStatus t).text else none) where
  gone hgone := by rw [if_neg (by simp [hgone])]
  shown halive := by
    refine ⟨plainStatus t, if_pos halive, ?_, ?_, ?_⟩
    . cases htracer : t.tracer <;> simp [plainStatus, htracer, Tracer.ofPid]
    . simp only [plainStatus]
      split_ifs <;> decide
    . cases hstopped : t.stopped <;> cases htracer : t.tracer <;> simp [plainStatus, hstopped, htracer]

theorem eq_ofFiles_plain :
    let files := fun (s : Tracing) tid => if (s.thread tid).alive then some (plainStatus (s.thread tid)).text else none
    let env := TraceEnv.still
    getTracer env 7 = getTracerOfFiles env 2 files 7 ∧
    isThreadStopped env 7 = isThreadStoppedOfFiles env files 7 ∧
    cleanupStuckThread env 7 = cleanupStuckThreadOfFiles env 2 files 7 ∧
    stillTraced env (fun _ => true) [7, 8] = stillTracedOfFiles env 2 files (fun _ => true) [7, 8] :=
  eq_ofFiles (fun s tid => describes_plain (s.thread tid)) 7 (fun _ => true) [7, 8]

end Tracing

end DeadlockInterceptor
