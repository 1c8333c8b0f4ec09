import Mathlib.Logic.Function.Basic
import Mathlib.Tactic.SplitIfs

/-!
# The file descriptor table

`file.c` keeps the open files of the executing process in the `files` array of
its PCB: `MAX_FILES` file objects, a slot open while its `valid` flag is set.
`file_init` opens stdin and stdout in slots 0 and 1 and frees the others;
`file_open` takes the lowest free slot from 2 on; `file_read`, `file_write` and
`file_close` go through `get_executing_file_obj`, which checks the descriptor's
range and the slot's flag before any call through the slot's `ops_table`.

`MAX_FILES`, `FD_STDIN`, `FD_STDOUT` and the directory-entry types come from
`file.h` and `filesys.h`, which are not among the sources; `MAX_FILES` is a
parameter. The callbacks (`read_dentry_by_name`, and the `open`, `read`, `write`
and `close` of an ops table) belong to other subsystems: a call of one is
modelled by the value it returns, an argument of the syscall that makes it.
-/

namespace LoliOS
namespace File

/-- The six `file_ops_t` tables of `file.c`. -/
inductive FileOps
  | stdin
  | stdout
  | file
  | dir
  | rtc
  | mouse
deriving DecidableEq, Repr

/-- Modelled from the spec: `filesys.h` is not among the sources. The `FTYPE_*`
of a directory entry: the four types `init_file_obj` knows, or any other value. -/
inductive FileType
  | rtc
  | dir
  | file
  | mouse
  | other (code : Int)
deriving DecidableEq, Repr

/-- Modelled from the spec: `filesys.h` is not among the sources. `dentry_t`, the
fields `init_file_obj` reads. -/
structure Dentry where
  type : FileType
  inodeIdx : Nat
deriving DecidableEq, Repr

/-- Modelled from the spec: `file.h` is not among the sources. `file_obj_t`, the
fields `file.c` writes. `opsTable` is `none` where the slot points at none of the
six tables, as a slot nothing has written may. -/
structure FileObj where
  opsTable : Option FileOps
  inodeIdx : Nat
  offset : Nat
  valid : Bool
deriving DecidableEq, Repr

/-- Modelled from the spec: `file.h` is not among the sources. `FD_STDIN`, slot 0
by the comment in `file_open`. -/
def fdStdin : Nat := 0

/-- Modelled from the spec: `file.h` is not among the sources. `FD_STDOUT`, slot 1
by the comment in `file_open`. -/
def fdStdout : Nat := 1

/-- Which function of an ops table a syscall calls. -/
inductive OpsFn
  | open
  | read
  | write
  | close
deriving DecidableEq, Repr

/-- A call through the `ops_table` of slot `slot`. -/
structure OpsCall where
  slot : Nat
  fn : OpsFn
deriving DecidableEq, Repr

/-- `init_file_obj`: the object it leaves in the slot, and its result. -/
def initFileObj (file : FileObj) (dentry : Dentry) : FileObj × Bool :=
  let file := { file with inodeIdx := 0, offset := 0 }
  match dentry.type with
  | .rtc => ({ file with opsTable := some .rtc, valid := true }, true)
  | .dir => ({ file with opsTable := some .dir, valid := true }, true)
  | .file => ({ file with opsTable := some .file, inodeIdx := dentry.inodeIdx, valid := true }, true)
  | .mouse => ({ file with opsTable := some .mouse, valid := true }, true)
  | .other _ => (file, false)

section MaxFiles

variable (maxFiles : Nat)

/-- `get_executing_file_obj`: the slot of `fd` when `fd` is in range and the slot
is open. -/
def getExecutingFileObj (files : Nat -> FileObj) (fd : Int) : Option Nat :=
  if fd < 0 ∨ (maxFiles : Int) ≤ fd then none
  else if (files fd.toNat).valid then some fd.toNat else none

def fileInit (files : Nat -> FileObj) : Nat -> FileObj :=
  let files := Function.update files fdStdin
    { files fdStdin with valid := true, opsTable := some .stdin }
  let files := Function.update files fdStdout
    { files fdStdout with valid := true, opsTable := some .stdout }
  (List.range' 2 (maxFiles - 2)).foldl
    (fun files i => Function.update files i { files i with valid := false }) files

/-- The loop of `file_open` from slot `i`, with `n` slots left: at the first free
slot, the dentry lookup (`none` when `read_dentry_by_name` fails),
`init_file_obj`, and the table's `open`, which returns `openResult`. -/
def fileOpenFrom (files : Nat -> FileObj) (lookup : Option Dentry) (openResult : Int) :
    Nat -> Nat -> Int × List OpsCall × (Nat -> FileObj)
  | _, 0 => (-1, [], files)
  | i, n + 1 =>
      if !(files i).valid then
        match lookup with
        | none => (-1, [], files)
        | some dentry =>
            let init := initFileObj (files i) dentry
            let files := Function.update files i init.1
            if !init.2 then (-1, [], files)
            else if openResult ≠ 0 then
              (-1, [⟨i, .open⟩], Function.update files i { init.1 with valid := false })
            else (i, [⟨i, .open⟩], files)
      else fileOpenFrom files lookup openResult (i + 1) n

/-- `file_open`: `readable` is the answer of `is_user_readable_string`. -/
def fileOpen (files : Nat -> FileObj) (readable : Bool) (lookup : Option Dentry)
    (openResult : Int) : Int × List OpsCall × (Nat -> FileObj) :=
  if !readable then (-1, [], files)
  else fileOpenFrom files lookup openResult 2 (maxFiles - 2)

/-- `file_read` and `file_write`: a call of the slot's `fn`, which returns `result`. -/
def fileCall (fn : OpsFn) (files : Nat -> FileObj) (fd : Int) (result : Int) :
    Int × List OpsCall :=
  match getExecutingFileObj maxFiles files fd with
  | none => (-1, [])
  | some i => (result, [⟨i, fn⟩])

def fileRead (files : Nat -> FileObj) (fd : Int) (result : Int) : Int × List OpsCall :=
  fileCall maxFiles .read files fd result

def fileWrite (files : Nat -> FileObj) (fd : Int) (result : Int) : Int × List OpsCall :=
  fileCall maxFiles .write files fd result

def fileClose (files : Nat -> FileObj) (fd : Int) (closeResult : Int) :
    Int × List OpsCall × (Nat -> FileObj) :=
  match getExecutingFileObj maxFiles files fd with
  | none => (-1, [], files)
  | some i =>
      if closeResult ≠ 0 then (-1, [⟨i, .close⟩], files)
      else (0, [⟨i, .close⟩], Function.update files i { files i with valid := false })

/-- A syscall on the table, with the answers of the callbacks it may make. -/
inductive FileCall
  | open (readable : Bool) (lookup : Option Dentry) (openResult : Int)
  | read (fd : Int) (result : Int)
  | write (fd : Int) (result : Int)
  | close (fd : Int) (closeResult : Int)

def fileStep (files : Nat -> FileObj) : FileCall -> Int × List OpsCall × (Nat -> FileObj)
  | .open readable lookup openResult => fileOpen maxFiles files readable lookup openResult
  | .read fd result => ((fileRead maxFiles files fd result).1, (fileRead maxFiles files fd result).2, files)
  | .write fd result =>
      ((fileWrite maxFiles files fd result).1, (fileWrite maxFiles files fd result).2, files)
  | .close fd closeResult => fileClose maxFiles files fd closeResult

def fileRun (files : Nat -> FileObj) (calls : List FileCall) : Nat -> FileObj :=
  calls.foldl (fun files c => (fileStep maxFiles files c).2.2) files

/-- Every open slot below `MAX_FILES` points at one of the six ops tables. -/
def TableInv (files : Nat -> FileObj) : Prop :=
  ∀ i, i < maxFiles → (files i).valid → (files i).opsTable.isSome

/-- What `file_open` may do to `files` when it searches the slots `[lo, hi)`: fail
with `-1`, leaving every `valid` flag and every open slot as they were, or return
the lowest free slot `k` of the range, which alone changes and is now open on one
of the six tables. -/
def OpenOutcome (files : Nat -> FileObj) (lo hi : Nat) (r : Int × List OpsCall × (Nat -> FileObj)) :
    Prop :=
  (r.1 = -1 ∧ (∀ j, (r.2.2 j).valid = (files j).valid) ∧ ∀ j, (files j).valid → r.2.2 j = files j) ∨
    ∃ k : Nat, r.1 = k ∧ lo ≤ k ∧ k < hi ∧ (files k).valid = false ∧
      (∀ j, lo ≤ j → j < k → (files j).valid) ∧ (r.2.2 k).valid ∧ (r.2.2 k).opsTable.isSome ∧
      ∀ j, j ≠ k → r.2.2 j = files j

/-- What `file_close fd` may do: return `0` for an open slot `fd` in range, which
alone changes and is now free, or return `-1` and leave the table alone. -/
def CloseOutcome (files : Nat -> FileObj) (fd : Int) (r : Int × List OpsCall × (Nat -> FileObj)) :
    Prop :=
  (r.1 = 0 ∧ 0 ≤ fd ∧ fd < maxFiles ∧ (files fd.toNat).valid ∧ (r.2.2 fd.toNat).valid = false ∧
      ∀ j, j ≠ fd.toNat → r.2.2 j = files j) ∨
    (r.1 = -1 ∧ r.2.2 = files)

/-- A call through a slot's ops table made by a syscall on `fd`: `fd` is in range,
and its slot is open on one of the six tables. -/
def SlotCall (files : Nat -> FileObj) (fd : Int) (call : OpsCall) : Prop :=
  0 ≤ fd ∧ fd < maxFiles ∧ call.slot = fd.toNat ∧ (files call.slot).valid ∧
    (files call.slot).opsTable.isSome

end MaxFiles

/-!
# One spec lemma per function
-/

theorem initFileObj_valid (file : FileObj) (dentry : Dentry) :
    (initFileObj file dentry).1.valid = ((initFileObj file dentry).2 || file.valid) := by
  unfold initFileObj
  split <;> rfl

theorem initFileObj_opsTable (file : FileObj) (dentry : Dentry)
    (h : (initFileObj file dentry).2 = true) : (initFileObj file dentry).1.opsTable.isSome := by
  unfold initFileObj at h ⊢
  split at h <;> first | rfl | cases h

section MaxFiles

variable (maxFiles : Nat)

theorem getExecutingFileObj_eq_some {files : Nat -> FileObj} {fd : Int} {i : Nat} :
    getExecutingFileObj maxFiles files fd = some i ↔
      0 ≤ fd ∧ fd < maxFiles ∧ i = fd.toNat ∧ (files i).valid := by
  unfold getExecutingFileObj
  split_ifs with h1 h2
  · simp only [reduceCtorEq, false_iff]; omega
  · simp only [Option.some.injEq]
    constructor
    · rintro rfl; exact ⟨by omega, by omega, rfl, h2⟩
    · rintro ⟨-, -, rfl, -⟩; rfl
  · simp only [reduceCtorEq, false_iff]
    rintro ⟨-, -, rfl, hv⟩
    exact h2 hv

theorem update_free_slot {files : Nat -> FileObj} {i : Nat} (hfree : (files i).valid = false)
    {x : FileObj} (hx : x.valid = false) :
    (∀ j, (Function.update files i x j).valid = (files j).valid) ∧
      ∀ j, (files j).valid → Function.update files i x j = files j := by
  refine ⟨fun j => ?_, fun j hj => Function.update_noteq (fun e => ?_) _ _⟩
  · by_cases hj : j = i
    · subst hj; simp [hx, hfree]
    · simp [Function.update_noteq hj]
  · subst e; simp [hfree] at hj

theorem fileOpenFrom_outcome (files : Nat -> FileObj) (lookup : Option Dentry) (openResult : Int)
    (i n : Nat) :
    OpenOutcome files i (i + n) (fileOpenFrom files lookup openResult i n) := by
  induction n generalizing i with
  | zero => exact .inl ⟨rfl, fun _ => rfl, fun _ _ => rfl⟩
  | succ n ih =>
      unfold fileOpenFrom
      by_cases hfree : (files i).valid
      · -- slot `i` is open: the loop goes on at `i + 1`
        rw [if_neg (by simp [hfree])]
        rcases ih (i + 1) with hfail | ⟨k, hk, hlo, hhi, hkfree, hbelow, hrest⟩
        · exact .inl hfail
        · refine .inr ⟨k, hk, by omega, by omega, hkfree, fun j hj hjk => ?_, hrest⟩
          rcases Nat.eq_or_lt_of_le hj with rfl | hj
          · exact hfree
          · exact hbelow j hj hjk
      -- slot `i` is the first free one
      rw [if_pos (by simpa using hfree)]
      rcases lookup with _ | dentry
      · exact .inl ⟨rfl, fun _ => rfl, fun _ _ => rfl⟩
      dsimp only
      have hfree' : (files i).valid = false := by simpa using hfree
      have hinit := initFileObj_valid (files i) dentry
      rw [hfree', Bool.or_false] at hinit
      by_cases hok : (initFileObj (files i) dentry).2
      · rw [if_neg (by simp [hok])]
        split_ifs
        · rw [Function.update_idem]
          exact .inl ⟨rfl, update_free_slot hfree' rfl⟩
        · refine .inr ⟨i, rfl, Nat.le_refl i, by omega, hfree',
            fun j hj hji => absurd hji (by omega), by simp [hinit, hok],
            by simpa using initFileObj_opsTable _ _ hok, fun j hj => ?_⟩
          simp [Function.update_noteq hj]
      · rw [if_pos (by simpa using hok)]
        exact .inl ⟨rfl, update_free_slot hfree' (by simpa [hok] using hinit)⟩

theorem fileOpen_outcome (files : Nat -> FileObj) (readable : Bool) (lookup : Option Dentry)
    (openResult : Int) :
    OpenOutcome files 2 maxFiles (fileOpen maxFiles files readable lookup openResult) := by
  unfold fileOpen
  split_ifs
  · exact .inl ⟨rfl, fun _ => rfl, fun _ _ => rfl⟩
  · rcases fileOpenFrom_outcome files lookup openResult 2 (maxFiles - 2) with
      hfail | ⟨k, hk, hlo, hhi, hrest⟩
    · exact .inl hfail
    · exact .inr ⟨k, hk, hlo, by omega, hrest⟩

theorem fileClose_outcome (files : Nat -> FileObj) (fd : Int) (closeResult : Int) :
    CloseOutcome maxFiles files fd (fileClose maxFiles files fd closeResult) := by
  unfold fileClose
  split
  · exact .inr ⟨rfl, rfl⟩
  · rename_i i hget
    obtain ⟨h0, hlt, rfl, hv⟩ := (getExecutingFileObj_eq_some maxFiles).mp hget
    split_ifs
    · exact .inr ⟨rfl, rfl⟩
    · exact .inl ⟨rfl, h0, hlt, hv, by simp, fun j hj => Function.update_noteq hj _ _⟩

theorem fileCall_calls (fn : OpsFn) (files : Nat -> FileObj) (fd result : Int) :
    ∀ call ∈ (fileCall maxFiles fn files fd result).2,
      0 ≤ fd ∧ fd < maxFiles ∧ call.slot = fd.toNat ∧ (files call.slot).valid := by
  unfold fileCall
  split
  · simp
  · rename_i i hget
    obtain ⟨h0, hlt, rfl, hv⟩ := (getExecutingFileObj_eq_some maxFiles).mp hget
    simp only [List.mem_singleton]
    rintro _ rfl
    exact ⟨h0, hlt, rfl, hv⟩

theorem fileClose_calls (files : Nat -> FileObj) (fd closeResult : Int) :
    ∀ call ∈ (fileClose maxFiles files fd closeResult).2.1,
      0 ≤ fd ∧ fd < maxFiles ∧ call.slot = fd.toNat ∧ (files call.slot).valid := by
  unfold fileClose
  split
  · simp
  · rename_i i hget
    obtain ⟨h0, hlt, rfl, hv⟩ := (getExecutingFileObj_eq_some maxFiles).mp hget
    split_ifs <;>
    · simp only [List.mem_singleton]
      rintro _ rfl
      exact ⟨h0, hlt, rfl, hv⟩

end MaxFiles

/-!
# The table invariant over runs
-/

section MaxFiles

variable (maxFiles : Nat)

theorem foldl_free_apply (l : List Nat) (files : Nat -> FileObj) (j : Nat) :
    l.foldl (fun files i => Function.update files i { files i with valid := false }) files j =
      if j ∈ l then { files j with valid := false } else files j := by
  induction l generalizing files with
  | nil => rfl
  | cons x l ih =>
      rw [List.foldl_cons, ih]
      by_cases hx : j = x
      · subst hx; simp
      · simp [hx, Function.update_noteq hx]

theorem tableInv_fileInit (files : Nat -> FileObj) : TableInv maxFiles (fileInit maxFiles files) := by
  intro i hi hv
  simp only [fileInit, foldl_free_apply] at hv ⊢
  by_cases hin : i ∈ List.range' 2 (maxFiles - 2)
  · rw [if_pos hin] at hv
    exact absurd hv (by simp)
  · rw [if_neg hin] at hv ⊢
    rw [List.mem_range'_1] at hin
    rcases (show i = 0 ∨ i = 1 by omega) with rfl | rfl <;> simp [fdStdin, fdStdout, Function.update_apply]

theorem OpenOutcome.tableInv {files : Nat -> FileObj} {lo hi : Nat}
    {r : Int × List OpsCall × (Nat -> FileObj)} (h : OpenOutcome files lo hi r)
    (hinv : TableInv maxFiles files) : TableInv maxFiles r.2.2 := by
  intro j hj hv
  rcases h with ⟨-, hflag, hsame⟩ | ⟨k, -, -, -, -, -, -, hops, hrest⟩
  · have hv' : (files j).valid := by rwa [hflag] at hv
    rw [hsame j hv']
    exact hinv j hj hv'
  · by_cases hjk : j = k
    · subst hjk; exact hops
    · rw [hrest j hjk] at hv ⊢
      exact hinv j hj hv

theorem CloseOutcome.tableInv {files : Nat -> FileObj} {fd : Int}
    {r : Int × List OpsCall × (Nat -> FileObj)} (h : CloseOutcome maxFiles files fd r)
    (hinv : TableInv maxFiles files) : TableInv maxFiles r.2.2 := by
  intro j hj hv
  rcases h with ⟨-, -, -, -, hclosed, hrest⟩ | ⟨-, hsame⟩
  · by_cases hjk : j = fd.toNat
    · subst hjk; simp [hclosed] at hv
    · rw [hrest j hjk] at hv ⊢
      exact hinv j hj hv
  · rw [hsame] at hv ⊢
    exact hinv j hj hv

theorem tableInv_fileStep (files : Nat -> FileObj) (c : FileCall) (hinv : TableInv maxFiles files) :
    TableInv maxFiles (fileStep maxFiles files c).2.2 := by
  cases c with
  | «open» readable lookup openResult =>
      exact (fileOpen_outcome maxFiles files readable lookup openResult).tableInv maxFiles hinv
  | read => exact hinv
  | write => exact hinv
  | close fd closeResult => exact (fileClose_outcome maxFiles files fd closeResult).tableInv maxFiles hinv

theorem tableInv_fileRun (files : Nat -> FileObj) (calls : List FileCall)
    (hinv : TableInv maxFiles files) : TableInv maxFiles (fileRun maxFiles files calls) := by
  induction calls generalizing files with
  | nil => exact hinv
  | cons c calls ih => exact ih _ (tableInv_fileStep maxFiles files c hinv)

theorem slotCall_of_valid {files : Nat -> FileObj} {fd : Int} {call : OpsCall}
    (hinv : TableInv maxFiles files)
    (h : 0 ≤ fd ∧ fd < maxFiles ∧ call.slot = fd.toNat ∧ (files call.slot).valid) :
    SlotCall maxFiles files fd call :=
  let ⟨h0, hlt, hslot, hv⟩ := h
  ⟨h0, hlt, hslot, hv, hinv _ (by omega) hv⟩

/-- On every table `file_init` and a sequence of syscalls leave, whatever the
callbacks answered: every open slot is on one of the six ops tables; `file_open`
fails leaving the flags and the open slots alone, or opens the lowest free slot
from 2 alone; `file_close` frees an open slot in range alone and returns `0`, or
returns `-1` and changes nothing; and `file_read`, `file_write` and `file_close`
call through a slot only for a descriptor in range whose slot is open. -/
theorem fileRun_descriptor_table (files0 : Nat -> FileObj) (calls : List FileCall) :
    let files := fileRun maxFiles (fileInit maxFiles files0) calls
    TableInv maxFiles files ∧
    (∀ readable lookup openResult,
      OpenOutcome files 2 maxFiles (fileOpen maxFiles files readable lookup openResult)) ∧
    (∀ fd closeResult, CloseOutcome maxFiles files fd (fileClose maxFiles files fd closeResult)) ∧
    (∀ fd result, ∀ call ∈ (fileRead maxFiles files fd result).2, SlotCall maxFiles files fd call) ∧
    (∀ fd result, ∀ call ∈ (fileWrite maxFiles files fd result).2, SlotCall maxFiles files fd call) ∧
    (∀ fd closeResult, ∀ call ∈ (fileClose maxFiles files fd closeResult).2.1,
      SlotCall maxFiles files fd call) := by
  intro files
  have hinv : TableInv maxFiles files :=
    tableInv_fileRun maxFiles _ calls (tableInv_fileInit maxFiles files0)
  exact ⟨hinv, fileOpen_outcome maxFiles files, fileClose_outcome maxFiles files,
    fun fd result call hc =>
      slotCall_of_valid maxFiles hinv (fileCall_calls maxFiles .read files fd result call hc),
    fun fd result call hc =>
      slotCall_of_valid maxFiles hinv (fileCall_calls maxFiles .write files fd result call hc),
    fun fd closeResult call hc =>
      slotCall_of_valid maxFiles hinv (fileClose_calls maxFiles files fd closeResult call hc)⟩

end MaxFiles

example :
    (fileOpen 8 (fileInit 8 fun _ => ⟨none, 0, 0, true⟩) true (some ⟨.file, 5⟩) 0).1 = 2 := by
  decide

/-!
# Open, close and the standard descriptors
-/

section MaxFiles

variable (maxFiles : Nat)

/-- `file_close` undoes a successful `file_open`: closing the descriptor it
returned succeeds when the table's `close` does, and leaves every `valid` flag as
it was before the open. -/
theorem fileClose_fileOpen (files : Nat -> FileObj) (readable : Bool) (lookup : Option Dentry)
    (openResult : Int) (hfd : 0 ≤ (fileOpen maxFiles files readable lookup openResult).1) :
    let r := fileOpen maxFiles files readable lookup openResult
    (fileClose maxFiles r.2.2 r.1 0).1 = 0 ∧
      ∀ j, ((fileClose maxFiles r.2.2 r.1 0).2.2 j).valid = (files j).valid := by
  intro r
  rcases fileOpen_outcome maxFiles files readable lookup openResult with
    ⟨hfail, -, -⟩ | ⟨k, hk, -, hhi, hkfree, -, hkv, -, hrest⟩
  · rw [hfail] at hfd
    omega
  have hr1 : r.1 = k := hk
  have hget : getExecutingFileObj maxFiles r.2.2 r.1 = some k :=
    (getExecutingFileObj_eq_some maxFiles).mpr ⟨by omega, by omega, by simp [hr1], hkv⟩
  refine ⟨by simp [fileClose, hget], fun j => ?_⟩
  simp only [fileClose, hget, ne_eq, not_true_eq_false, if_false]
  by_cases hj : j = k
  · subst hj
    simp [hkfree]
  · rw [Function.update_noteq hj, hrest j hj]

theorem fileClose_fileOpen_at_init :
    0 ≤ (fileOpen 8 (fileInit 8 fun _ => ⟨none, 0, 0, true⟩) true (some ⟨.file, 5⟩) 0).1 ∧
      let r := fileOpen 8 (fileInit 8 fun _ => ⟨none, 0, 0, true⟩) true (some ⟨.file, 5⟩) 0
      (fileClose 8 r.2.2 r.1 0).1 = 0 ∧
        ∀ j, ((fileClose 8 r.2.2 r.1 0).2.2 j).valid = (fileInit 8 (fun _ => ⟨none, 0, 0, true⟩) j).valid :=
  ⟨by decide, fileClose_fileOpen 8 _ true (some ⟨.file, 5⟩) 0 (by decide)⟩

/-- A syscall leaves an open slot `i < 2` alone unless it is a `close(i)` whose
callback succeeds: `file_open` searches from slot 2, and the others change
nothing or only the slot of their descriptor. -/
theorem fileStep_low_slot (files : Nat -> FileObj) (c : FileCall) {i : Nat} (hi : i < 2)
    (hv : (files i).valid) (hc : c ≠ .close i 0) : (fileStep maxFiles files c).2.2 i = files i := by
  cases c with
  | «open» readable lookup openResult =>
      rcases fileOpen_outcome maxFiles files readable lookup openResult with
        ⟨-, -, hsame⟩ | ⟨k, -, hlo, -, -, -, -, -, hrest⟩
      · exact hsame i hv
      · exact hrest i (by omega)
  | read => rfl
  | write => rfl
  | close fd closeResult =>
      simp only [fileStep, fileClose]
      split
      · rfl
      · rename_i k hget
        obtain ⟨h0, -, rfl, -⟩ := (getExecutingFileObj_eq_some maxFiles).mp hget
        split_ifs with hr
        · rfl
        · have hfd : fd ≠ i := fun e => hc (by rw [e, show closeResult = 0 by simpa using hr])
          exact Function.update_noteq (by omega) _ _

theorem fileRun_low_slot (files : Nat -> FileObj) (calls : List FileCall) {i : Nat} (hi : i < 2)
    (hv : (files i).valid) (hc : ∀ c ∈ calls, c ≠ .close i 0) :
    fileRun maxFiles files calls i = files i := by
  induction calls generalizing files with
  | nil => rfl
  | cons c calls ih =>
      have hstep := fileStep_low_slot maxFiles files c hi hv (hc c (List.mem_cons_self _ _))
      simp only [fileRun, List.foldl_cons] at ih ⊢
      rw [ih _ (by rw [hstep]; exact hv) fun c' h => hc c' (List.mem_cons_of_mem _ h), hstep]

/-- Stdin and stdout stay open on the terminal's ops tables, as `file_init` left
them, through every sequence of syscalls that does not close them: `file_open`
never hands out or reuses slot 0 or 1, and a failed `close` keeps them. -/
theorem fileRun_stdin_stdout (files0 : Nat -> FileObj) (calls : List FileCall)
    (hc : ∀ c ∈ calls, c ≠ .close fdStdin 0 ∧ c ≠ .close fdStdout 0) :
    let files := fileRun maxFiles (fileInit maxFiles files0) calls
    files fdStdin = { files0 fdStdin with valid := true, opsTable := some .stdin } ∧
      files fdStdout = { files0 fdStdout with valid := true, opsTable := some .stdout } := by
  have h0 : fileInit maxFiles files0 fdStdin =
      { files0 fdStdin with valid := true, opsTable := some .stdin } := by
    simp [fileInit, foldl_free_apply, fdStdin, fdStdout, Function.update_apply]
  have h1 : fileInit maxFiles files0 fdStdout =
      { files0 fdStdout with valid := true, opsTable := some .stdout } := by
    simp [fileInit, foldl_free_apply, fdStdin, fdStdout, Function.update_apply]
  refine ⟨?_, ?_⟩
  · rw [fileRun_low_slot maxFiles _ calls (by decide) (by rw [h0]) fun c h => (hc c h).1, h0]
  · rw [fileRun_low_slot maxFiles _ calls (by decide) (by rw [h1]) fun c h => (hc c h).2, h1]

end MaxFiles

theorem fileRun_stdin_stdout_open_close :
    (∀ c ∈ [FileCall.open true (some ⟨.file, 5⟩) 0, .close 2 0, .close 0 1],
        c ≠ .close fdStdin 0 ∧ c ≠ .close fdStdout 0) ∧
      let files := fileRun 8 (fileInit 8 fun _ => ⟨none, 0, 0, false⟩)
        [.open true (some ⟨.file, 5⟩) 0, .close 2 0, .close 0 1]
      files fdStdin = { (⟨none, 0, 0, false⟩ : FileObj) with valid := true, opsTable := some .stdin } ∧
        files fdStdout = { (⟨none, 0, 0, false⟩ : FileObj) with valid := true, opsTable := some .stdout } :=
  ⟨by simp [fdStdin, fdStdout], fileRun_stdin_stdout 8 _ _ (by simp [fdStdin, fdStdout])⟩

end File
end LoliOS
