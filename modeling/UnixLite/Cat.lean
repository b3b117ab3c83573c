import UnixLite.UserCalls

namespace UnixLite

open Transition Store

/-- Where `main` of ece391cat.c is: at one of its calls, with the variables
that it still uses, or back from it. -/
inductive Cat
  | start (buf : Nat → UInt8)
  | noArgs
  | opening (buf : Nat → UInt8)
  | notFound
  | reading (fd : Int) (buf : Nat → UInt8)
  | readFailed
  | writing (fd : Int) (buf : Nat → UInt8) (cnt : Int)
  | returned (v : Int)

namespace Cat

def noArgsText : List UInt8 := ascii "could not read arguments\n"

def notFoundText : List UInt8 := ascii "file not found\n"

def readFailedText : List UInt8 := ascii "file read failed\n"

def ask (a : Addresses) : Cat → Option SysCall
  | start _ => some (.getargs 1024)
  | noArgs => some (fdputs 1 a.text (cString noArgsText))
  | opening buf => some (.openFile (stringAt buf))
  | notFound => some (fdputs 1 a.text (cString notFoundText))
  | reading fd _ => some (.read fd a.buf 1024)
  | readFailed => some (fdputs 1 a.text (cString readFailedText))
  | writing _ buf cnt => some (.write 1 a.buf buf (BitVec.ofInt 32 cnt))
  | returned _ => none

def take : Cat → Answer → Cat
  | start buf, r => if r.1 ≠ 0 then noArgs else opening (storeList buf 0 r.2)
  | noArgs, _ => returned 3
  | opening buf, r => if r.1 = -1 then notFound else reading r.1 buf
  | notFound, _ => returned 2
  | reading fd buf, r =>
    if r.1 = 0 then returned 0
    else if r.1 = -1 then readFailed
    else writing fd (storeList buf 0 r.2) r.1
  | readFailed, _ => returned 3
  | writing fd buf _, r => if r.1 = -1 then returned 3 else reading fd buf
  | returned v, _ => returned v

def result : Cat → Option Int
  | returned v => some v
  | _ => none

end Cat

/-- What `cat` prints and returns, for an argument that names no directory. -/
def catText (fs : FsImage) (args : List UInt8) : List UInt8 × Int :=
  if args = [] then (Cat.noArgsText, 3)
  else
    match readDentryByName fs (cString args) with
    | none => (Cat.notFoundText, 2)
    | some d =>
      if d.fileType = 2 then (fs.contents d.inodeNum, 0)
      else if d.fileType = 0 then ([], 0)
      else (Cat.readFailedText, 3)

namespace Cat

/-- The descriptor that `cat` reads from, with what it has printed: a regular
file up to its position, the clock, or an entry of a type that `sys_open` does not know. -/
inductive Feeds (fs : FsImage) (d : Dentry) (e : Fd) (text : List UInt8) : Prop
  | file : d.fileType = 2 → OpenOn fs d e text.length → text = (fs.contents d.inodeNum).take text.length →
      Feeds fs d e text
  | clock : d.fileType = 0 → e.fileOpTablePtr = .rtcOpt → e.flags ≠ 0 → text = [] → Feeds fs d e text
  | unknown : d.fileType ≠ 2 → d.fileType ≠ 0 → e.flags = 0 → text = [] → Feeds fs d e text

/-- What holds at each call. -/
def At (fs : FsImage) (p : Int) (args : List UInt8) (calls : List (SysCall × Answer)) (k : Kernel) : Cat → Prop
  | start _ => printed calls = [] ∧ ∀ i, 2 ≤ i → i < 8 → (k.entry p i).flags = 0
  | noArgs => printed calls = [] ∧ args = []
  | opening buf => printed calls = [] ∧ args ≠ [] ∧ stringAt buf = args ∧
      ∀ i, 2 ≤ i → i < 8 → (k.entry p i).flags = 0
  | notFound => printed calls = [] ∧ args ≠ [] ∧ readDentryByName fs (cString args) = none
  | reading fd _ => fd = 2 ∧ args ≠ [] ∧ ∃ d, readDentryByName fs (cString args) = some d ∧
      Feeds fs d (k.entry p 2) (printed calls)
  | readFailed => printed calls = [] ∧ args ≠ [] ∧ ∃ d, readDentryByName fs (cString args) = some d ∧
      d.fileType ≠ 2 ∧ d.fileType ≠ 0
  | writing fd buf cnt => fd = 2 ∧ args ≠ [] ∧ ∃ d chunk, readDentryByName fs (cString args) = some d ∧
      d.fileType = 2 ∧ cnt = chunk.length ∧ 0 < chunk.length ∧ chunk.length ≤ 1024 ∧
      (chunk.length = 1024 ∨ (printed calls ++ chunk).length = (fs.contents d.inodeNum).length) ∧
      (List.range chunk.length).map buf = chunk ∧ Feeds fs d (k.entry p 2) (printed calls ++ chunk)
  | returned v => (printed calls, v) = catText fs args

/-- The calls that may still come. -/
def left (fs : FsImage) (p : Int) (args : List UInt8) (k : Kernel) : Cat → Nat
  | start _ => 2 * (((catText fs args).1.length + 1023) / 1024) + 4
  | opening _ => 2 * (((catText fs args).1.length + 1023) / 1024) + 3
  | reading _ _ => 2 * (((catText fs args).1.length - (k.entry p 2).filePos.toNat + 1023) / 1024) + 2
  | writing _ _ _ => 2 * (((catText fs args).1.length - (k.entry p 2).filePos.toNat + 1023) / 1024) + 3
  | noArgs | notFound | readFailed => 1
  | returned _ => 0

variable {fs : FsImage} {p : Int} {args : List UInt8} {calls : List (SysCall × Answer)} {k k' : Kernel} {a : Answer}

theorem At.stable {s : Cat} (holds : At fs p args calls k s) (kept : ∀ i, k'.entry p i = k.entry p i) :
    At fs p args calls k' s := by
  cases s with
  | start buf | opening buf | reading fd buf | writing fd buf cnt =>
    simp only [At, kept] at holds ⊢
    exact holds
  | noArgs | notFound | readFailed | returned v => exact holds

/-- A message and the return behind it. -/
theorem At.message {text : List UInt8} {addr : Nat} {v : Int} (here : Resident p args k) (place : addr ≠ 0)
    (plain : 0 ∉ text) (short : text.length < 2 ^ 31) (before : printed calls = [])
    (result : catText fs args = (text, v)) (served : Serves fs p k (fdputs 1 addr (cString text)) a k') :
    At fs p args ((fdputs 1 addr (cString text), a) :: calls) k' (returned v) ∧ k'.entry p 1 = k.entry p 1 := by
  obtain ⟨bytes, kept⟩ := here.puts place (stringAt_cString plain (by omega)) short served
  refine ⟨?_, kept 1⟩
  change (printed (_ :: calls), v) = catText fs args
  rw [printed_cons, bytes, before, List.nil_append, result]

theorem At.started {buf : Nat → UInt8} (here : Resident p args k) (short : args.length ≤ 128)
    (holds : At fs p args calls k (start buf)) (served : Serves fs p k (.getargs 1024) a k') :
    At fs p args ((.getargs 1024, a) :: calls) k' (take (start buf) a) ∧ k'.entry p 1 = k.entry p 1 := by
  obtain ⟨before, free⟩ := holds
  have still : printed ((SysCall.getargs 1024, a) :: calls) = [] := by rw [printed_cons, before]; rfl
  obtain ⟨rfl, reply⟩ := here.getargs short served
  refine ⟨?_, rfl⟩
  rcases reply with ⟨none, failed⟩ | ⟨named, zero, arrives⟩
  · rw [show take (start buf) a = noArgs from if_pos failed]
    exact ⟨still, none⟩
  · rw [show take (start buf) a = opening (storeList buf 0 a.2) from if_neg (not_not.mpr zero)]
    exact ⟨still, named, arrives buf, free⟩

theorem At.opened {buf : Nat → UInt8} (holds : At fs p args calls k (opening buf))
    (notDirectory : ∀ d, readDentryByName fs (cString args) = some d → d.fileType ≠ 1)
    (served : Serves fs p k (.openFile (stringAt buf)) a k') :
    At fs p args ((.openFile (stringAt buf), a) :: calls) k' (take (opening buf) a) ∧
      k'.entry p 1 = k.entry p 1 := by
  obtain ⟨before, named, name, free⟩ := holds
  have still : printed ((SysCall.openFile (stringAt buf), a) :: calls) = [] := by rw [printed_cons, before]; rfl
  rw [name] at served still ⊢
  rcases (served.opens (Nat.le_refl 2) (by decide) (free 2 (by decide) (by decide)) fun i lower less => by omega).2 with
    ⟨missing, refused, rfl⟩ | ⟨d, found, two, set⟩
  · refine ⟨?_, rfl⟩
    simp only [take, refused, if_true]
    exact ⟨still, named, missing⟩
  · have opens : take (opening buf) a = reading 2 buf := by simp [take, two]
    rw [opens]
    rcases set with ⟨untyped, rfl⟩ | ⟨op, typed, entries⟩
    · refine ⟨⟨rfl, named, d, found, .unknown ?_ ?_ (free 2 (by decide) (by decide)) still⟩, rfl⟩
      · rintro file
        rw [file] at untyped
        cases untyped
      · rintro clock
        rw [clock] at untyped
        cases untyped
    · refine ⟨⟨rfl, named, d, found, ?_⟩, by rw [entries]; rfl⟩
      have entry : k'.entry p 2 = ⟨op, d.inodeNum, 0, 1⟩ := entries 2
      have used : (k'.entry p 2).flags ≠ 0 := by
        rw [entry]
        exact (by decide : (1 : Word) ≠ 0)
      unfold tableOfType at typed
      split at typed
      · rename_i clock
        cases typed
        exact .clock clock (by rw [entry]) used still
      · split at typed
        · rename_i directory
          exact absurd directory (notDirectory d found)
        · split at typed
          · rename_i file
            cases typed
            have start : (printed ((SysCall.openFile args, a) :: calls)).length = 0 := by rw [still]; rfl
            refine .file file ⟨by rw [entry], by rw [entry], used, ?_, ?_⟩ ?_
            · rw [entry, start]
              rfl
            · omega
            · rw [start, still]
              rfl
          · cases typed

/-- The next piece of a regular file. -/
theorem Feeds.read {d : Dentry} {text : List UInt8} {buf : Nat} (ok : FilesOk fs) (file : d.fileType = 2)
    (opened : OpenOn fs d (k.entry p 2) text.length) (taken : text = (fs.contents d.inodeNum).take text.length)
    (found : readDentryByName fs (cString args) = some d) (served : Serves fs p k (.read 2 buf 1024) a k') :
    a.2 = ((fs.contents d.inodeNum).drop text.length).take 1024 ∧ a.1 = a.2.length ∧
      (∀ i, i ≠ 2 → k'.entry p i = k.entry p i) ∧ Feeds fs d (k'.entry p 2) (text ++ a.2) := by
  have served' : Serves fs p k (.read (2 : Nat) buf 1024) a k' := served
  obtain ⟨piece, count, kept, more, _⟩ := opened.read ok file found (by decide) (by decide) served'
  refine ⟨piece, count, kept, .file file (by rw [List.length_append]; exact more) ?_⟩
  have joined : text ++ a.2 = (fs.contents d.inodeNum).take (text.length + 1024) := by
    rw [List.take_add, ← taken, piece]
    rfl
  rw [joined, List.length_take, ← List.take_eq_take_min]

/-- What `cat` prints in the end, by the type of the entry. -/
theorem catText_found {d : Dentry} (named : args ≠ []) (found : readDentryByName fs (cString args) = some d) :
    catText fs args = if d.fileType = 2 then (fs.contents d.inodeNum, 0)
      else if d.fileType = 0 then ([], 0) else (readFailedText, 3) := by
  simp only [catText, named, found, if_false]

theorem At.fed {fd : Int} {buf : Nat → UInt8} {addr : Nat} (ok : FilesOk fs)
    (holds : At fs p args calls k (reading fd buf)) (served : Serves fs p k (.read fd addr 1024) a k') :
    At fs p args ((.read fd addr 1024, a) :: calls) k' (take (reading fd buf) a) ∧
      k'.entry p 1 = k.entry p 1 := by
  obtain ⟨rfl, named, d, found, feeds⟩ := holds
  have still : printed ((SysCall.read 2 addr 1024, a) :: calls) = printed calls := by
    rw [printed_cons]
    exact List.append_nil _
  have result := catText_found named found
  cases feeds with
  | file file opened taken =>
    obtain ⟨piece, value, kept, more⟩ := Feeds.read ok file opened taken found served
    refine ⟨?_, kept 1 (by decide)⟩
    have notFailed : ¬ a.1 = -1 := by omega
    by_cases ended : a.2 = []
    · have returns : take (reading 2 buf) a = returned 0 := by simp [take, value, ended]
      rw [returns, At, still, result, if_pos file]
      rw [ended] at piece
      have rest : (fs.contents d.inodeNum).length - (printed calls).length = 0 := by
        have none := congrArg List.length piece
        rw [List.length_nil, List.length_take, List.length_drop] at none
        omega
      have whole : printed calls = fs.contents d.inodeNum := by
        rw [taken]
        exact List.take_of_length_le (by omega)
      rw [whole]
    · have goesOn : ¬ a.1 = 0 := by
        rw [value]
        intro zero
        exact ended (List.eq_nil_of_length_eq_zero (by omega))
      have writes : take (reading 2 buf) a = writing 2 (storeList buf 0 a.2) a.1 := by
        simp only [take, goesOn, notFailed, if_false]
      have short : a.2.length ≤ 1024 := by
        rw [piece]
        exact List.length_take_le _ _
      rw [writes]
      refine ⟨rfl, named, d, a.2, found, file, value, List.length_pos_of_ne_nil ended, short, ?_, ?_, ?_⟩
      · have size := congrArg List.length piece
        rw [List.length_take, List.length_drop] at size
        rw [still, List.length_append]
        omega
      · refine List.ext_getElem (by simp) fun i _ inside => ?_
        have cell := storeList_within (m := buf) (a := 0) inside
        rw [Nat.zero_add] at cell
        simpa using cell
      · rw [still]
        exact more
  | clock clock table used before =>
    obtain ⟨rfl, move⟩ := served
    obtain ⟨v, out, call, reply⟩ := step_read move
    simp only [Reply.value.injEq] at reply
    obtain ⟨rfl, rfl⟩ := reply
    have call' : k.sysRead fs (2 : Nat) addr 1024 = .done (k', a.1, a.2) := call
    rw [k.sysRead_used fs addr 1024 (by decide) used, table] at call'
    simp only [OpTable.read, Kernel.rtcRead, Outcome.done.injEq, Prod.mk.injEq] at call'
    obtain ⟨post, value, _⟩ := call'
    have returns : take (reading 2 buf) a = returned 0 := by simp [take, ← value]
    have notFile : ¬ d.fileType = 2 := by
      rw [clock]
      decide
    refine ⟨?_, ?_⟩
    · rw [returns, At, still, result, before, if_neg notFile, if_pos clock]
    · rw [← post, Kernel.setFd_entry, if_neg (by simp)]
      rfl
  | unknown notFile notClock unused before =>
    obtain ⟨rfl, move⟩ := served
    obtain ⟨v, out, call, reply⟩ := step_read move
    simp only [Reply.value.injEq] at reply
    obtain ⟨rfl, rfl⟩ := reply
    rcases Kernel.sysRead_done call with ⟨rfl, failed, _⟩ | ⟨_, _, used, _⟩
    · have fails : take (reading 2 buf) a = readFailed := by simp [take, failed]
      rw [fails]
      exact ⟨⟨still.trans before, named, d, found, notFile, notClock⟩, rfl⟩
    · exact absurd unused used

theorem At.wrote {fd : Int} {buf : Nat → UInt8} {cnt : Int} {addr : Nat} (here : Resident p args k) (place : addr ≠ 0)
    (holds : At fs p args calls k (writing fd buf cnt))
    (served : Serves fs p k (.write 1 addr buf (BitVec.ofInt 32 cnt)) a k') :
    At fs p args ((.write 1 addr buf (BitVec.ofInt 32 cnt), a) :: calls) k' (take (writing fd buf cnt) a) ∧
      ∀ i, k'.entry p i = k.entry p i := by
  obtain ⟨rfl, named, d, chunk, found, file, rfl, positive, short, _, bytes, feeds⟩ := holds
  have count : (BitVec.ofInt 32 (chunk.length : Int)).toInt = chunk.length := by
    rw [BitVec.ofInt_natCast]
    exact Word.toInt_ofNat (by omega)
  obtain ⟨value, kept⟩ := here.writes place (by omega) served
  have succeeded : ¬ a.1 = -1 := by omega
  have goesOn : take (writing 2 buf chunk.length) a = reading 2 buf := by simp only [take, succeeded, if_false]
  have all : printed ((SysCall.write 1 addr buf (BitVec.ofInt 32 (chunk.length : Int)), a) :: calls) =
      printed calls ++ chunk := by
    rw [printed_cons, bytesWritten, if_pos ⟨rfl, succeeded⟩, count, Int.toNat_natCast, bytes]
  rw [goesOn]
  refine ⟨⟨rfl, named, d, found, ?_⟩, kept⟩
  rw [all, kept 2]
  exact feeds

theorem Feeds.position {d : Dentry} {e : Fd} {text : List UInt8} (feeds : Feeds fs d e text)
    (file : d.fileType = 2) : e.filePos.toNat = text.length := by
  cases feeds with
  | file _ opened => exact opened.position
  | clock clock => exact absurd (file.symm.trans clock) (by decide)
  | unknown notFile => exact absurd file notFile

/-- One call of `cat` and what holds behind it. -/
theorem At.served {s : Cat} {q : SysCall} (addr : Addresses) (ok : FilesOk fs) (short : args.length ≤ 128)
    (notDirectory : ∀ d, readDentryByName fs (cString args) = some d → d.fileType ≠ 1)
    (here : Resident p args k) (holds : At fs p args calls k s) (asks : ask addr s = some q)
    (served : Serves fs p k q a k') :
    Resident p args k' ∧ At fs p args ((q, a) :: calls) k' (take s a) ∧
      ∀ i fd buf cnt, s = writing fd buf cnt → k'.entry p i = k.entry p i := by
  have close (next : At fs p args ((q, a) :: calls) k' (take s a) ∧ k'.entry p 1 = k.entry p 1)
      (notWriting : ∀ fd buf cnt, s ≠ writing fd buf cnt) :
      Resident p args k' ∧ At fs p args ((q, a) :: calls) k' (take s a) ∧
        ∀ i fd buf cnt, s = writing fd buf cnt → k'.entry p i = k.entry p i :=
    ⟨here.served served next.2, next.1, fun _ fd buf cnt same => absurd same (notWriting fd buf cnt)⟩
  cases s with
  | start buf =>
    cases asks
    exact close (holds.started here short served) (by simp)
  | opening buf =>
    cases asks
    exact close (holds.opened notDirectory served) (by simp)
  | reading fd buf =>
    cases asks
    exact close (holds.fed ok served) (by simp)
  | writing fd buf cnt =>
    cases asks
    obtain ⟨next, kept⟩ := holds.wrote here addr.buf_ne served
    exact ⟨here.served served (kept 1), next, fun i _ _ _ _ => kept i⟩
  | noArgs =>
    cases asks
    obtain ⟨before, none⟩ := holds
    exact close (At.message here addr.text_ne (by decide) (by decide) before (by simp [catText, none]) served) (by simp)
  | notFound =>
    cases asks
    obtain ⟨before, named, missing⟩ := holds
    exact close (At.message here addr.text_ne (by decide) (by decide) before
      (by simp [catText, named, missing]) served) (by simp)
  | readFailed =>
    cases asks
    obtain ⟨before, named, d, found, notFile, notClock⟩ := holds
    exact close (At.message here addr.text_ne (by decide) (by decide) before
      (by rw [catText_found named found, if_neg notFile, if_neg notClock]) served) (by simp)
  | returned v => cases asks

/-- Where `main` has not returned its next call is answered. -/
theorem At.answered {s : Cat} (addr : Addresses) (here : Resident p args k)
    (holds : At fs p args calls k s) (running : k.curPid = p) (goesOn : result s = none) :
    ∃ q a k', ask addr s = some q ∧ Serves fs p k q a k' := by
  subst running
  have puts (at' : Nat) (buf : Nat → UInt8) (n : Word) (asks : ask addr s = some (.write 1 at' buf n)) :
      ∃ q a k', ask addr s = some q ∧ Serves fs k.curPid k q a k' := by
    obtain ⟨a, k', served⟩ := here.canWrite rfl at' buf n
    exact ⟨_, a, k', asks, served⟩
  cases s with
  | start buf => exact ⟨_, k.sysGetargs 1024, k, rfl, rfl, rfl, rfl⟩
  | opening buf => exact ⟨_, ((k.sysOpen fs (stringAt buf)).2, []), (k.sysOpen fs (stringAt buf)).1, rfl, rfl, rfl⟩
  | noArgs | notFound | readFailed | writing fd buf cnt => exact puts _ _ _ rfl
  | returned v => cases goesOn
  | reading fd buf =>
    obtain ⟨rfl, _, d, found, feeds⟩ := holds
    have reads (k' : Kernel) (v : Int) (out : List UInt8)
        (call : k.sysRead fs (2 : Nat) addr.buf 1024 = .done (k', v, out)) :
        ∃ q a k', ask addr (reading 2 buf) = some q ∧ Serves fs k.curPid k q a k' := by
      have call' : k.sysRead fs 2 addr.buf 1024 = .done (k', v, out) := call
      exact ⟨_, (v, out), k', rfl, rfl, congrArg ReadReply.outcome call'⟩
    cases feeds with
    | file _ opened => exact reads _ _ _ (Kernel.sysRead_file (by decide) opened.table opened.used)
    | clock _ table used => exact reads _ _ _ (by rw [k.sysRead_used fs addr.buf 1024 (by decide) used, table]; rfl)
    | unknown _ _ unused =>
      refine reads k (-1) [] ?_
      have flags : (k.curPcb.fileDescriptorTable 2).flags = 0 := unused
      have inside : ¬ (((2 : Nat) : Int) < 0 ∨ ((2 : Nat) : Int) > 8) := by decide
      have notLast : ¬ ((2 : Nat) : Int) = 8 := by decide
      unfold Kernel.sysRead
      rw [if_neg inside, if_neg notLast]
      exact if_pos flags

/-- What has been printed is the beginning of what will be. -/
theorem At.soFar {s : Cat} (holds : At fs p args calls k s) : printed calls <+: (catText fs args).1 := by
  have nothing (before : printed calls = []) : printed calls <+: (catText fs args).1 := by
    rw [before]
    exact List.nil_prefix
  cases s with
  | start | noArgs | opening | notFound | readFailed => exact nothing holds.1
  | returned v =>
    rw [← show (printed calls, v) = catText fs args from holds]
  | reading fd buf =>
    obtain ⟨_, named, d, found, feeds⟩ := holds
    cases feeds with
    | clock _ _ _ before | unknown _ _ _ before => exact nothing before
    | file file _ taken =>
      rw [catText_found named found, if_pos file, taken]
      exact List.take_prefix _ _
  | writing fd buf cnt =>
    obtain ⟨_, named, d, chunk, found, file, _, _, _, _, _, feeds⟩ := holds
    rw [catText_found named found, if_pos file]
    cases feeds with
    | clock clock => exact absurd (file.symm.trans clock) (by decide)
    | unknown notFile => exact absurd file notFile
    | file _ _ taken =>
      refine (List.prefix_append (printed calls) chunk).trans ?_
      rw [taken]
      exact List.take_prefix _ _

end Cat

end UnixLite
