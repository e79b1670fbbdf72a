import Mathlib.Data.Fintype.Basic
import Mathlib.Order.Fin.Basic
import ThreeTermOS.FileDesc
import ThreeTermOS.Library.Runs
import ThreeTermOS.Library.SlotTable

/-!
# The descriptor table as a table of slots

A descriptor is a slot: free when its table is null. `open_func` keeps, besides the table, a counter of its own; `TableOk` ties
the two together, and is what each call needs and keeps. The lemmas on the calls say what each one does to the whole table.
-/

namespace ThreeTermOS

open Bytes Runs SlotTable

/-- The descriptors a process may open and close: 2 to 7. -/
def userSlots : Finset (Fin 8) := Finset.univ.filter (fun i => 2 ≤ i.val)

/-- The descriptor table as slots. -/
def PCB.table (p : PCB) (i : Fin 8) : Option Fd := if (p.fdA i).fopsPtr = none then none else some (p.fdA i)

/-- The number of open descriptors among 2 to 7. -/
def PCB.openCount (p : PCB) : Nat := used userSlots p.table

/-- The descriptor table as `PCB_init` leaves it. -/
def PCB.initFds (p : PCB) : PCB := { p with fdA := fdAInit, fdTotalOpen := 1 }

/-- The operation table `open_func` installs for a file type. -/
def fopsOfType : Nat → Option Fops
  | 0 => some .rtc
  | 1 => some .dir
  | 2 => some .file
  | _ => none

/-- The position `open_func` starts a file type at. -/
def startPos : Nat → Nat
  | 1 => 1
  | _ => 0

/-- The counter counts the open descriptors, the first two descriptors keep their tables, and the others hold the table of a
file type or none. -/
structure TableOk (p : PCB) : Prop where
  total : p.fdTotalOpen = 1 + p.openCount
  stdin : (p.fdA 0).fopsPtr = some .stdin
  stdout : (p.fdA 1).fopsPtr = some .stdout
  user : ∀ i ∈ userSlots, (p.fdA i).fopsPtr ≠ some .stdin ∧ (p.fdA i).fopsPtr ≠ some .stdout

/-- Every entry of the directory has a type the source knows. -/
def KnownTypes (img : Image) : Prop := ∀ i < img.fsStats 0, (img.dentry i).fileType ≤ 2

namespace FileDescAux

/-- The slots of the user's files are those from 2 on. -/
theorem mem_userSlots (i : Fin 8) : i ∈ userSlots ↔ 2 ≤ i.val := by simp [userSlots]

/-- There are six of them. -/
theorem card_userSlots : userSlots.card = 6 := by decide

/-- A slot is free when its operations are none. -/
theorem table_eq_none (p : PCB) (i : Fin 8) : p.table i = none ↔ (p.fdA i).fopsPtr = none := by
  by_cases h : (p.fdA i).fopsPtr = none <;> simp [PCB.table, h]

/-- The slots of a table depend on the descriptors alone, and on their tables for being in use. -/
theorem openCount_congr {p q : PCB} (h : ∀ i, (p.fdA i).fopsPtr = (q.fdA i).fopsPtr) : p.openCount = q.openCount := by
  apply used_congr
  intro i _
  by_cases hi : (q.fdA i).fopsPtr = none <;> simp [PCB.table, h i, hi]

/-- Opening a closed descriptor fills its slot. -/
theorem openCount_setFd_open {p : PCB} {i : Fin 8} {f : Fd} (hi : i ∈ userSlots) (hc : (p.fdA i).fopsPtr = none)
    (hf : f.fopsPtr ≠ none) : (p.setFd i f).openCount = p.openCount + 1 := by
  have ht : (p.setFd i f).table = Function.update p.table i (some f) := by
    funext j
    by_cases hj : j = i
    · subst hj
      simp [PCB.table, PCB.setFd, hf]
    · simp [PCB.table, PCB.setFd, hj]
  rw [PCB.openCount, PCB.openCount, ht]
  exact used_alloc hi ((table_eq_none p i).mpr hc) f

/-- Clearing a descriptor frees its slot. -/
theorem table_setFd_close (p : PCB) (i : Fin 8) : (p.setFd i closedFd).table = Function.update p.table i none := by
  funext j
  by_cases hj : j = i
  · subst hj
    simp [PCB.table, PCB.setFd, closedFd]
  · simp [PCB.table, PCB.setFd, hj]

/-- Closing an open descriptor takes one from the count. -/
theorem openCount_setFd_close {p : PCB} {i : Fin 8} (hi : i ∈ userSlots) (ho : (p.fdA i).fopsPtr ≠ none) :
    (p.setFd i closedFd).openCount + 1 = p.openCount := by
  rw [PCB.openCount, PCB.openCount, table_setFd_close]
  apply used_free hi
  simp [PCB.table, ho]

/-- `open_func` looks at just those slots. -/
theorem mem_openSlots : ∀ i : Fin 8, i ∈ openSlots ↔ i ∈ userSlots := by decide

/-- `open_func` looks at the slots in order. -/
theorem openSlots_sorted : openSlots.Pairwise (· < ·) := by decide

/-- The slot it takes is the first free one. -/
theorem findClosed_eq (p : PCB) : findClosed p.fdA = openSlots.find? (fun i => (p.table i).isNone) := by
  rw [findClosed]
  congr 1
  funext i
  by_cases hi : (p.fdA i).fopsPtr = none
  · simp [PCB.table, hi]
  · simp [PCB.table, hi, Option.isSome_iff_ne_none]

/-- The search of `open_func` finds the lowest free slot. -/
theorem findClosed_eq_some {p : PCB} {i : Fin 8} : findClosed p.fdA = some i ↔ IsLowestFree userSlots p.table i := by
  rw [findClosed_eq]
  exact find?_eq_some_iff openSlots_sorted mem_openSlots

/-- A counter below seven leaves the search a closed descriptor to find. -/
theorem exists_findClosed {p : PCB} (h : TableOk p) (hlt : p.fdTotalOpen < 7) : ∃ i, findClosed p.fdA = some i := by
  have hused : used userSlots p.table < userSlots.card := by
    have ht := h.total
    rw [PCB.openCount] at ht
    rw [card_userSlots]
    omega
  obtain ⟨i, hi⟩ := exists_isLowestFree hused
  exact ⟨i, findClosed_eq_some.mpr hi⟩

/-- A counter of seven or more says that every descriptor is open. -/
theorem not_isLowestFree {p : PCB} (h : TableOk p) (hge : 7 ≤ p.fdTotalOpen) (i : Fin 8) :
    ¬IsLowestFree userSlots p.table i := by
  rintro ⟨hi, hf, -⟩
  have hlt := exists_free_iff.mp ⟨i, hi, hf⟩
  have ht := h.total
  rw [PCB.openCount] at ht
  rw [card_userSlots] at hlt
  omega

/-- The descriptor named by a number of the table. -/
theorem fdIndex_eq_some {fd : Int} {i : Fin 8} : fdIndex fd = some i ↔ (i.val : Int) = fd := by
  unfold fdIndex
  constructor
  · intro h
    split at h
    · rename_i hfd
      have := congrArg Fin.val (Option.some.inj h)
      simp only at this
      omega
    · cases h
  · intro h
    have hi := i.isLt
    rw [dif_pos (by omega)]
    congr 1
    apply Fin.ext
    simp only
    omega

/-- A copied entry has its type. -/
theorem copy_fileType (d : Dentry) : d.copy.fileType = d.fileType := by simp [Dentry.fileType, Dentry.copy, le32]

/-- A copied entry has its inode. -/
theorem copy_inodeNum (d : Dentry) : d.copy.inodeNum = d.inodeNum := by simp [Dentry.inodeNum, Dentry.copy, le32]

/-- The search by name stops at an entry of the directory. -/
theorem findDentry_lt {img : Image} {fname : CPtr} : ∀ {n i k : Nat}, img.findDentry fname n i = some k → k < i + n := by
  intro n
  induction n with
  | zero => intro i k h; cases h
  | succ n ih =>
    intro i k h
    rw [Image.findDentry] at h
    split at h
    · cases h; omega
    · have := ih h; omega

/-- The entry found by name is one of the directory's. -/
theorem readDentryByName_mem {img : Image} {fname : CPtr} {d : Dentry} (h : readDentryByName img fname = some d) :
    ∃ i < img.fsStats 0, d = (img.dentry i).copy := by
  rw [readDentryByName, Option.map_eq_some_iff] at h
  obtain ⟨i, hi, rfl⟩ := h
  exact ⟨i, by simpa using findDentry_lt hi, rfl⟩

/-- With the types the source knows, the entry found by name is of one of them. -/
theorem fileType_of_readDentryByName {img : Image} (hk : KnownTypes img) {fname : CPtr} {d : Dentry}
    (h : readDentryByName img fname = some d) : d.fileType = 0 ∨ d.fileType = 1 ∨ d.fileType = 2 := by
  obtain ⟨i, hi, rfl⟩ := readDentryByName_mem h
  have := hk i hi
  rw [copy_fileType]
  omega

/-- The descriptor opened for a known type. -/
theorem openedFd_fopsPtr {d : Dentry} (old : Fd) (h : d.fileType = 0 ∨ d.fileType = 1 ∨ d.fileType = 2) :
    (openedFd d old).fopsPtr = fopsOfType d.fileType ∧ (openedFd d old).pos = startPos d.fileType ∧
      (openedFd d old).flags = 0 := by
  rcases h with h | h | h <;> simp [openedFd, h, fopsOfType, startPos]

/-! ### What each call does -/

section Calls

variable {σ : Type} {img : Image} {dev : Devices σ} {s : σ} {p : PCB}

/-- The process after a descriptor was opened for an entry. -/
def opened (p : PCB) (i : Fin 8) (d : Dentry) : PCB :=
  { p.setFd i (openedFd d (p.fdA i)) with fdTotalOpen := p.fdTotalOpen + 1 }

/-- An open with no slot free fails. -/
theorem openFunc_of_full {fname : CPtr} (h : 7 ≤ p.fdTotalOpen) :
    openFunc img dev s p fname = some (CallOut.fail p (dev.printf s (ascii "Cannot Open More Files\n"))) := by
  unfold openFunc
  rw [if_pos (show p.fdTotalOpen ≥ maxFd - 1 by simp only [maxFd]; omega)]

/-- An open of a name that is not there fails. -/
theorem openFunc_of_not_found {fname : CPtr} (hlt : p.fdTotalOpen < 7) (hd : readDentryByName img fname = none) :
    openFunc img dev s p fname = some (CallOut.fail p (dev.printf s (ascii "File Does not exist\n"))) := by
  unfold openFunc
  rw [if_neg (show ¬p.fdTotalOpen ≥ maxFd - 1 by simp only [maxFd]; omega), hd]

/-- With a descriptor to fill and an entry of a known type, `open_func` returns the descriptor. -/
theorem openFunc_of_found (dev : Devices σ) (s : σ) {fname : CPtr} {d : Dentry} {i : Fin 8} (hlt : p.fdTotalOpen < 7)
    (hd : readDentryByName img fname = some d) (hi : findClosed p.fdA = some i)
    (ht : d.fileType = 0 ∨ d.fileType = 1 ∨ d.fileType = 2) :
    ∃ s', openFunc img dev s p fname = some { ret := i.val, bytes := [], pcb := opened p i d, dev := s' } := by
  unfold openFunc
  rw [if_neg (show ¬p.fdTotalOpen ≥ maxFd - 1 by simp only [maxFd]; omega), hd]
  simp only [hi]
  rcases ht with ht | ht | ht
  · exact ⟨dev.rtcOpen s, by simp [PCB.setFd, openedFd, ht, Fops.open, opened]⟩
  · exact ⟨s, by simp [PCB.setFd, openedFd, ht, Fops.open, opened, fileOpen]⟩
  · exact ⟨s, by simp [PCB.setFd, openedFd, ht, Fops.open, opened, fileOpen]⟩

/-- Whatever the process, an `open_func` that returns either fails and changes nothing of the process, or opens a descriptor
for the entry it found. -/
theorem openFunc_cases {fname : CPtr} {out : CallOut σ} (h : openFunc img dev s p fname = some out) :
    (out.ret = -1 ∧ out.pcb = p) ∨
      ∃ d i, readDentryByName img fname = some d ∧ findClosed p.fdA = some i ∧ out.ret = i.val ∧ out.pcb = opened p i d := by
  by_cases hfull : 7 ≤ p.fdTotalOpen
  · rw [openFunc_of_full hfull, Option.some.injEq] at h
    subst h
    exact Or.inl ⟨rfl, rfl⟩
  · have hlt : p.fdTotalOpen < 7 := by omega
    cases hd : readDentryByName img fname with
    | none =>
      rw [openFunc_of_not_found hlt hd, Option.some.injEq] at h
      subst h
      exact Or.inl ⟨rfl, rfl⟩
    | some d =>
      right
      cases hi : findClosed p.fdA with
      | none =>
        unfold openFunc at h
        rw [if_neg (show ¬p.fdTotalOpen ≥ maxFd - 1 by simp only [maxFd]; omega), hd] at h
        simp [hi] at h
      | some i =>
        by_cases ht : d.fileType = 0 ∨ d.fileType = 1 ∨ d.fileType = 2
        · obtain ⟨s', hs'⟩ := openFunc_of_found dev s hlt hd hi ht
          rw [hs', Option.some.injEq] at h
          subst h
          exact ⟨d, i, rfl, rfl, rfl, rfl⟩
        · -- an entry of another type leaves the descriptor closed, and its null table is followed
          have hf : (openedFd d (p.fdA i)).fopsPtr = none := by
            have hold : openedFd d (p.fdA i) = p.fdA i := by
              unfold openedFd
              split <;> simp_all
            have hfree := List.find?_some (p := fun i => (p.fdA i).fopsPtr.isNone) hi
            rw [hold]
            exact Option.isNone_iff_eq_none.mp hfree
          unfold openFunc at h
          rw [if_neg (show ¬p.fdTotalOpen ≥ maxFd - 1 by simp only [maxFd]; omega), hd] at h
          simp [hi, PCB.setFd, hf] at h

/-- `open_func` reaches the devices with a message or with `rtc_open`. -/
theorem openFunc_dev {fname : CPtr} {out : CallOut σ} (h : openFunc img dev s p fname = some out) :
    out.dev = s ∨ out.dev = dev.rtcOpen s ∨ ∃ text, out.dev = dev.printf s text := by
  unfold openFunc at h
  split at h
  · exact Or.inr (Or.inr ⟨_, congrArg CallOut.dev (Option.some.inj h).symm⟩)
  · split at h
    · exact Or.inr (Or.inr ⟨_, congrArg CallOut.dev (Option.some.inj h).symm⟩)
    · dsimp only at h
      split at h
      · cases h
      · split at h
        · cases h
        · split at h
          · exact Or.inr (Or.inr ⟨_, congrArg CallOut.dev (Option.some.inj h).symm⟩)
          · exact Or.inl (congrArg CallOut.dev (Option.some.inj h).symm)
          · exact Or.inr (Or.inl (congrArg CallOut.dev (Option.some.inj h).symm))
          · split at h
            · exact Or.inl (congrArg CallOut.dev (Option.some.inj h).symm)
            · exact Or.inl (congrArg CallOut.dev (Option.some.inj h).symm)

/-- `close_func` reaches the devices with a message. -/
theorem closeFunc_dev (dev : Devices σ) (s : σ) (p : PCB) (fd : Nat) :
    (closeFunc dev s p fd).dev = s ∨ ∃ text, (closeFunc dev s p fd).dev = dev.printf s text := by
  unfold closeFunc
  split
  · exact Or.inl rfl
  · split
    · exact Or.inl rfl
    · split
      · exact Or.inl rfl
      · split
        · exact Or.inr ⟨_, rfl⟩
        · rename_i f _
          cases f with
          | invalidFunc => exact Or.inl rfl
          | rtcClose => exact Or.inl rfl
          | fileClose => exact Or.inl rfl

/-- Opening changes one descriptor. -/
theorem opened_fdA_other {i j : Fin 8} (d : Dentry) (h : j ≠ i) : (opened p i d).fdA j = p.fdA j := by
  simp [opened, PCB.setFd, h]

/-- The slot taken has the file's descriptor. -/
theorem opened_fdA_self (i : Fin 8) (d : Dentry) : (opened p i d).fdA i = openedFd d (p.fdA i) := by
  simp [opened, PCB.setFd]

/-- The descriptor an `open_func` returns is the one opened for the entry of the name. -/
theorem openFunc_fd {fname : CPtr} {d : Dentry} {i : Fin 8} (hd : readDentryByName img fname = some d) {out : CallOut σ}
    (ho : openFunc img dev s p fname = some out) (hi : out.ret = i.val) : out.pcb.fdA i = openedFd d (p.fdA i) := by
  rcases openFunc_cases ho with ⟨hret, -⟩ | ⟨d', j, hd', -, hret, hp⟩
  · omega
  · rw [hd, Option.some.injEq] at hd'
    subst hd'
    have hij : i = j := Fin.ext (by omega)
    rw [hp, hij, opened_fdA_self]

/-- The process after a descriptor was closed. -/
def closed (p : PCB) (i : Fin 8) : PCB := { p.setFd i closedFd with fdTotalOpen := p.fdTotalOpen - 1 }

/-- A close leaves the other slots. -/
theorem closed_fdA_other {i j : Fin 8} (h : j ≠ i) : (closed p i).fdA j = p.fdA j := by
  simp [closed, PCB.setFd, h]

/-- A close frees its slot. -/
theorem table_closed (p : PCB) (i : Fin 8) : (closed p i).table = Function.update p.table i none := table_setFd_close p i

/-- On an open descriptor of a file type, `close_func` clears it and returns 0. -/
theorem closeFunc_of_open {i : Fin 8} (hi : 2 ≤ i.val) (ho : (p.fdA i).fopsPtr ≠ none)
    (hu : (p.fdA i).fopsPtr ≠ some .stdin ∧ (p.fdA i).fopsPtr ≠ some .stdout) :
    closeFunc dev s p i.val = { ret := 0, bytes := [], pcb := closed p i, dev := s } := by
  unfold closeFunc
  rw [if_neg (by omega), fdIndex_eq_some.mpr (rfl : (i.val : Int) = (i.val : Nat))]
  cases hf : (p.fdA i).fopsPtr with
  | none => exact absurd hf ho
  | some fops =>
    rw [hf] at hu
    cases fops <;> simp_all [Fops.close, closed, fileClose]

/-- On anything else, `close_func` returns -1 and changes nothing. -/
theorem closeFunc_of_not_open {fd : Nat} (h : ∀ i : Fin 8, i.val = fd → 2 ≤ fd → (p.fdA i).fopsPtr = none) :
    closeFunc dev s p fd = CallOut.fail p s := by
  unfold closeFunc
  by_cases h1 : fd ≤ 1
  · rw [if_pos h1]
  · rw [if_neg h1]
    cases hi : fdIndex (fd : Int) with
    | none => rfl
    | some i =>
      have hv : i.val = fd := by exact_mod_cast fdIndex_eq_some.mp hi
      simp [h i hv (by omega)]

/-- `close_func` changes no descriptor but the one it names. -/
theorem closeFunc_fdA {fd : Nat} {j : Fin 8} (hj : j.val ≠ fd) : (closeFunc dev s p fd).pcb.fdA j = p.fdA j := by
  unfold closeFunc
  split
  · rfl
  · cases hi : fdIndex (fd : Int) with
    | none => rfl
    | some i =>
      have hne : j ≠ i := by
        rintro rfl
        exact hj (by exact_mod_cast fdIndex_eq_some.mp hi)
      cases hf : (p.fdA i).fopsPtr with
      | none => simp only [hf, CallOut.fail]
      | some fops =>
        simp only [hf]
        cases fops <;> simp only [Fops.close, CallOut.fail, PCB.setFd, Function.update_of_ne hne]

/-- `read_func` changes at most the position of the descriptor it names. -/
theorem readFunc_pcb (img : Image) (dev : Devices σ) (s : σ) (p : PCB) (fd : Int) (buf : Bool) (nbytes : Int32) :
    (readFunc img dev s p fd buf nbytes).pcb = p ∨
      ∃ i n, fdIndex fd = some i ∧ (readFunc img dev s p fd buf nbytes).pcb = p.setFd i { p.fdA i with pos := n } := by
  unfold readFunc
  cases hi : fdIndex fd with
  | none => exact Or.inl rfl
  | some i =>
    cases hf : (p.fdA i).fopsPtr with
    | none =>
      simp only [hf]
      exact Or.inl rfl
    | some fops =>
      simp only [hf]
      split
      · exact Or.inl rfl
      · cases fops with
        | stdin => exact Or.inl rfl
        | stdout => exact Or.inl rfl
        | rtc => exact Or.inl rfl
        | dir =>
          simp only [Fops.read, readDir]
          split
          · exact Or.inl rfl
          · exact Or.inr ⟨i, (p.fdA i).pos + 1, rfl, by rw [hf]⟩
        | file =>
          simp only [Fops.read, readDataFile]
          split
          · exact Or.inl rfl
          · exact Or.inr ⟨i, _, rfl, by rw [hf]⟩

/-- A read leaves the other descriptors. -/
theorem readFunc_fdA {fd : Int} (buf : Bool) (nbytes : Int32) {j : Fin 8} (hj : (j.val : Int) ≠ fd) :
    (readFunc img dev s p fd buf nbytes).pcb.fdA j = p.fdA j := by
  rcases readFunc_pcb img dev s p fd buf nbytes with h | ⟨i, n, hi, h⟩
  · rw [h]
  · have hne : j ≠ i := by
      rintro rfl
      exact hj (fdIndex_eq_some.mp hi)
    rw [h]
    simp [PCB.setFd, hne]

/-- `write_func` changes nothing of the process. -/
theorem writeFunc_pcb (fd : Int) (buf : Option (List UInt8)) (nbytes : Int32) : (writeFunc dev s p fd buf nbytes).pcb = p := by
  unfold writeFunc
  cases fdIndex fd with
  | none => rfl
  | some i =>
    cases hf : (p.fdA i).fopsPtr with
    | none => simp only [hf, CallOut.fail]
    | some fops =>
      cases buf with
      | none => simp only [hf, CallOut.fail]
      | some bs =>
        simp only [hf]
        split
        · rfl
        · cases fops <;> rfl

/-- A read with a null buffer or no bytes to read fails. -/
theorem readFunc_refused {fd : Int} {buf : Bool} {nbytes : Int32} (h : buf = false ∨ nbytes.toInt ≤ 0) :
    readFunc img dev s p fd buf nbytes = CallOut.fail p s := by
  unfold readFunc
  cases fdIndex fd with
  | none => rfl
  | some i =>
    cases hf : (p.fdA i).fopsPtr with
    | none => simp only [hf]
    | some fops =>
      simp only [hf]
      rw [if_pos (by tauto)]

/-- An open descriptor is left as it was by every call but a read on it and one that closes it. -/
theorem call_fdA {c : Call} {out : CallOut σ} (ho : c.out img dev s p = some out) {i : Fin 8} (hopen : (p.fdA i).fopsPtr ≠ none)
    (hclose : c ≠ .close i.val) (hread : ∀ buf nbytes, c ≠ .read i.val buf nbytes) : out.pcb.fdA i = p.fdA i := by
  cases c with
  | «open» fname =>
    rcases openFunc_cases ho with ⟨-, hp⟩ | ⟨d, j, -, hj, -, hp⟩
    · rw [hp]
    · have hne : i ≠ j := by
        rintro rfl
        have hclosed := List.find?_some (p := fun i => (p.fdA i).fopsPtr.isNone) hj
        exact hopen (Option.isNone_iff_eq_none.mp hclosed)
      rw [hp, opened_fdA_other d hne]
  | close fd =>
    rw [Call.out, Option.some.injEq] at ho
    subst ho
    exact closeFunc_fdA (fun h => hclose (by rw [h]))
  | read fd buf nbytes =>
    rw [Call.out, Option.some.injEq] at ho
    subst ho
    exact readFunc_fdA buf nbytes (fun h => hread buf nbytes (by rw [h]))
  | write fd buf nbytes =>
    rw [Call.out, Option.some.injEq] at ho
    subst ho
    rw [writeFunc_pcb]

/-! ### The table through a call -/

/-- Calls that leave every table where it is keep the counter right. -/
theorem tableOk_congr {q : PCB} (h : TableOk p) (hf : ∀ i, (q.fdA i).fopsPtr = (p.fdA i).fopsPtr)
    (ht : q.fdTotalOpen = p.fdTotalOpen) : TableOk q := by
  refine ⟨?_, ?_, ?_, ?_⟩
  · rw [ht, h.total, openCount_congr hf]
  · rw [hf, h.stdin]
  · rw [hf, h.stdout]
  · intro i hi
    rw [hf]
    exact h.user i hi

/-- A descriptor opened in a closed slot for an entry of a known type keeps the table right. -/
theorem tableOk_opened {i : Fin 8} {d : Dentry} (h : TableOk p) (hi : findClosed p.fdA = some i)
    (ht : d.fileType = 0 ∨ d.fileType = 1 ∨ d.fileType = 2) : TableOk (opened p i d) := by
  obtain ⟨hmem, hnone, -⟩ := findClosed_eq_some.mp hi
  have hval := (mem_userSlots i).mp hmem
  have hclosed := (table_eq_none p i).mp hnone
  have hfops : fopsOfType d.fileType ≠ none ∧ fopsOfType d.fileType ≠ some .stdin ∧ fopsOfType d.fileType ≠ some .stdout := by
    rcases ht with ht | ht | ht <;> simp [ht, fopsOfType]
  have hptr := (openedFd_fopsPtr (p.fdA i) ht).1
  refine ⟨?_, ?_, ?_, ?_⟩
  · have hcount : (opened p i d).openCount = (p.setFd i (openedFd d (p.fdA i))).openCount := openCount_congr (fun _ => rfl)
    rw [hcount, openCount_setFd_open hmem hclosed (by rw [hptr]; exact hfops.1)]
    have := h.total
    simp only [opened]
    omega
  · rw [opened_fdA_other d (by rintro rfl; simp at hval)]
    exact h.stdin
  · rw [opened_fdA_other d (by rintro rfl; simp at hval)]
    exact h.stdout
  · intro j hj
    by_cases hij : j = i
    · rw [hij, opened_fdA_self, hptr]
      exact hfops.2
    · rw [opened_fdA_other d hij]
      exact h.user j hj

/-- Closing an open descriptor keeps the table right. -/
theorem tableOk_closed {i : Fin 8} (h : TableOk p) (hi : 2 ≤ i.val) (ho : (p.fdA i).fopsPtr ≠ none) :
    TableOk (closed p i) := by
  refine ⟨?_, ?_, ?_, ?_⟩
  · have hcount : (closed p i).openCount = (p.setFd i closedFd).openCount := openCount_congr (fun _ => rfl)
    have hfree := openCount_setFd_close ((mem_userSlots i).mpr hi) ho
    have := h.total
    rw [hcount]
    simp only [closed]
    omega
  · rw [closed_fdA_other (by rintro rfl; simp at hi)]
    exact h.stdin
  · rw [closed_fdA_other (by rintro rfl; simp at hi)]
    exact h.stdout
  · intro j hj
    by_cases hij : j = i
    · subst hij
      simp [closed, PCB.setFd, closedFd]
    · rw [closed_fdA_other hij]
      exact h.user j hj

/-- What `close_func` does to a table that is right: it frees an open descriptor of 2 to 7, or does nothing. -/
theorem closeFunc_cases (dev : Devices σ) (s : σ) (h : TableOk p) (fd : Nat) :
    (∃ i : Fin 8, i.val = fd ∧ 2 ≤ fd ∧ (p.fdA i).fopsPtr ≠ none ∧
      closeFunc dev s p fd = { ret := 0, bytes := [], pcb := closed p i, dev := s }) ∨
    (¬(∃ i : Fin 8, i.val = fd ∧ 2 ≤ fd ∧ (p.fdA i).fopsPtr ≠ none) ∧ closeFunc dev s p fd = CallOut.fail p s) := by
  by_cases ho : ∃ i : Fin 8, i.val = fd ∧ 2 ≤ fd ∧ (p.fdA i).fopsPtr ≠ none
  · left
    obtain ⟨i, rfl, hge, ho⟩ := ho
    exact ⟨i, rfl, hge, ho, closeFunc_of_open hge ho (h.user i ((mem_userSlots i).mpr hge))⟩
  · right
    refine ⟨ho, closeFunc_of_not_open ?_⟩
    intro i hi hge
    by_contra hne
    exact ho ⟨i, hi, hge, hne⟩

/-- `read_func` and `write_func` keep every table and the counter. -/
theorem tableOk_readFunc (h : TableOk p) (fd : Int) (buf : Bool) (nbytes : Int32) :
    TableOk (readFunc img dev s p fd buf nbytes).pcb := by
  rcases readFunc_pcb img dev s p fd buf nbytes with hp | ⟨i, n, hi, hp⟩
  · rw [hp]
    exact h
  · rw [hp]
    refine tableOk_congr h (fun j => ?_) rfl
    by_cases hj : j = i
    · subst hj
      simp [PCB.setFd]
    · simp [PCB.setFd, hj]

/-- A call that returns leaves its process and its devices as its outcome says. -/
theorem callStep_eq_ok {k k' : PCB × σ} {c : Call} (hs : callStep img dev k c = .ok k') :
    ∃ out, c.out img dev k.2 k.1 = some out ∧ k' = (out.pcb, out.dev) := by
  unfold callStep at hs
  split at hs
  · cases hs
  · rename_i out hout
    exact ⟨out, hout, (Outcome.ok.inj hs).symm⟩

/-- Every call keeps the table right. -/
theorem tableOk_call (hk : KnownTypes img) (h : TableOk p) {c : Call} {out : CallOut σ} (ho : c.out img dev s p = some out) :
    TableOk out.pcb := by
  cases c with
  | «open» fname =>
    rcases openFunc_cases ho with ⟨-, hp⟩ | ⟨d, i, hd, hi, -, hp⟩
    · rw [hp]
      exact h
    · rw [hp]
      exact tableOk_opened h hi (fileType_of_readDentryByName hk hd)
  | close fd =>
    rw [Call.out, Option.some.injEq] at ho
    subst ho
    rcases closeFunc_cases dev s h fd with ⟨i, rfl, hge, hopen, hc⟩ | ⟨-, hc⟩
    · rw [hc]
      exact tableOk_closed h hge hopen
    · rw [hc]
      exact h
  | read fd buf nbytes =>
    rw [Call.out, Option.some.injEq] at ho
    subst ho
    exact tableOk_readFunc h fd buf nbytes
  | write fd buf nbytes =>
    rw [Call.out, Option.some.injEq] at ho
    subst ho
    rw [writeFunc_pcb]
    exact h

/-- A process starts with the user's slots free. -/
theorem fdAInit_user : ∀ i ∈ userSlots, (fdAInit i).fopsPtr = none := by decide

/-- `PCB_init` leaves the table right. -/
theorem tableOk_initFds (p : PCB) : TableOk p.initFds := by
  refine ⟨?_, rfl, rfl, ?_⟩
  · have hfree : ∀ i ∈ userSlots, p.initFds.table i = none :=
      fun i hi => (table_eq_none p.initFds i).mpr (fdAInit_user i hi)
    rw [PCB.openCount, used_eq_zero hfree]
    rfl
  · intro i hi
    have hnone : (p.initFds.fdA i).fopsPtr = none := fdAInit_user i hi
    rw [hnone]
    exact ⟨nofun, nofun⟩

end Calls

/-- The table is right after every sequence of calls since `PCB_init`. -/
theorem tableOk_reachable {σ : Type} {img : Image} {dev : Devices σ} (hk : KnownTypes img) {p : PCB} {s : σ} {k : PCB × σ}
    (hr : Reachable (callStep img dev) (p.initFds, s) k) : TableOk k.1 := by
  refine Reachable.invariant (I := fun k => TableOk k.1) ?_ (tableOk_initFds p) hr
  intro k c k' hok hs
  obtain ⟨out, ho, rfl⟩ := callStep_eq_ok hs
  exact tableOk_call hk hok ho

end FileDescAux

/-- The root shell of terminal 0 before its descriptors are set up. -/
def rootShellPCB : PCB :=
  { pId := 0, parentPId := 0, parent := none, child := none, fdA := fun _ => closedFd, args := [], esp0 := 0,
    progEntry := fun _ => 0, fdTotalOpen := 0, shellFlag := 1, termNum := 0 }

/-- Devices on which nothing happens. -/
def quietDevices : Devices Unit :=
  { terminalRead := fun s _ => (0, [], s), terminalWrite := fun s _ _ => (0, s), rtcOpen := fun s => s,
    rtcRead := fun s => (0, s), rtcWrite := fun s _ _ => (-1, s), printf := fun s _ => s }

end ThreeTermOS
