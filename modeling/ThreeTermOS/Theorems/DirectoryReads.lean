import Mathlib.Tactic.Push
import ThreeTermOS.Lemmas.Directory
import ThreeTermOS.Lemmas.FileDesc
import ThreeTermOS.Lemmas.FileSys

/-!
# Reading a directory

The reads on a directory descriptor, with any other calls in between, go through the entries from the second one on. The end test
lets the number of entries itself pass as an index, so that what lies behind the last entry is read like one more.
-/

namespace ThreeTermOS

open Bytes Runs

variable {σ : Type}

/-- The call is a read on the descriptor, with a buffer and bytes to read. -/
def Call.asks (i : Fin 8) : Call → Bool
  | .read fd buf nbytes => decide (fd = i.val) && (buf && decide (0 < nbytes.toInt))
  | _ => false

/-- What the reads on a descriptor yield, one after the other, along the calls a process makes. -/
def readsOn (img : Image) (dev : Devices σ) (i : Fin 8) : PCB × σ → List Call → List ReadOut
  | _, [] => []
  | k, c :: cs =>
    match c.out img dev k.2 k.1 with
    | none => []
    | some out => (if c.asks i then [{ ret := out.ret, bytes := out.bytes }] else []) ++ readsOn img dev i (out.pcb, out.dev) cs

/-- The reads deliver the names of the entries from the second one on, in order, and then nothing. -/
structure Enumerates (img : Image) (reads : List ReadOut) : Prop where
  entries : ∀ (j : Nat) (out : ReadOut), reads[j]? = some out → j + 1 < img.fsStats 0 →
    out.ret = (img.dentry (j + 1)).name.length ∧ out.bytes = (img.dentry (j + 1)).name ++ [0]
  ending : ∀ (j : Nat) (out : ReadOut), reads[j]? = some out → img.fsStats 0 ≤ j + 1 → out.ret = 0 ∧ ∀ c ∈ out.bytes, c = 0

/-- The names that a number of reads come to end within their field or right after it, and if the reads come to the place behind the
last entry, then a zero is there. -/
structure Image.EndsInTime (img : Image) (reads : Nat) : Prop where
  entries : ∀ j, 1 ≤ j → j ≤ reads → j < img.fsStats 0 → ∃ z ≤ fileNameCharmax, (img.dentry j).filename z = 0
  ending : img.fsStats 0 ≤ reads → (img.dentry (img.fsStats 0)).filename 0 = 0

namespace DirectoryReadsAux

open FileDescAux LibAux

variable {img : Image} {dev : Devices σ} {s : σ} {p : PCB} {i : Fin 8} {pos : Nat}

/-- A directory descriptor at a position. -/
def dirFd (pos : Nat) : Fd := { fopsPtr := some .dir, inodeNum := minusOne, pos := pos, flags := 0 }

/-- What a read at a position yields. -/
def dirOut (img : Image) (pos : Nat) : ReadOut :=
  if pos > img.fsStats 0 then { ret := 0, bytes := [] }
  else
    { ret := (strcpyBytes (img.dentry pos).copy.filename).length, bytes := strcpyBytes (img.dentry pos).copy.filename ++ [0] }

/-- The position after a read. -/
def nextPos (img : Image) (pos : Nat) : Nat := min (pos + 1) (img.fsStats 0 + 1)

/-- `read_func` on a directory descriptor is `read_dir`. -/
theorem readFunc_dirFd (hf : p.fdA i = dirFd pos) {nbytes : Int32} (hn : 0 < nbytes.toInt) :
    readFunc img dev s p i.val true nbytes = readDir img p s i := by
  unfold readFunc
  rw [fdIndex_eq_some.mpr rfl]
  simp only [hf, dirFd, inUse]
  rw [if_neg (by simp; omega)]
  rfl

/-- One read on a directory descriptor. -/
theorem readDir_dirFd (hf : p.fdA i = dirFd pos) (hpos : pos ≤ img.fsStats 0 + 1) :
    { ret := (readDir img p s i).ret, bytes := (readDir img p s i).bytes } = dirOut img pos ∧
      (readDir img p s i).pcb.fdA i = dirFd (nextPos img pos) := by
  rw [readDir, dirOut, readDentryByIndex, show (p.fdA i).pos = pos by rw [hf]; rfl]
  by_cases hend : pos > img.fsStats 0
  · rw [if_pos hend, if_pos hend]
    refine ⟨rfl, ?_⟩
    rw [show nextPos img pos = pos by unfold nextPos; omega]
    exact hf
  · rw [if_neg hend, if_neg hend]
    refine ⟨rfl, ?_⟩
    rw [show nextPos img pos = pos + 1 by unfold nextPos; omega]
    simp [PCB.setFd, hf, dirFd]

/-- A call that is not a read the descriptor answers leaves an open descriptor as it was. -/
theorem call_not_asks {c : Call} {out : CallOut σ} (ho : c.out img dev s p = some out) (hf : p.fdA i = dirFd pos)
    (hc : c ≠ .close i.val) (hno : ¬c.asks i = true) : out.pcb.fdA i = dirFd pos := by
  have hopen : (p.fdA i).fopsPtr ≠ none := by
    rw [hf]
    exact fun h => by cases h
  by_cases hread : ∃ buf nbytes, c = .read i.val buf nbytes
  · obtain ⟨buf, nbytes, rfl⟩ := hread
    rw [Call.out, Option.some.injEq] at ho
    subst ho
    rw [readFunc_refused]
    · exact hf
    · cases buf with
      | false => exact Or.inl rfl
      | true => exact Or.inr (by simpa [Call.asks] using hno)
  · push Not at hread
    exact (call_fdA ho hopen hc hread).trans hf

theorem call_asks {c : Call} {out : CallOut σ} (ho : c.out img dev s p = some out) (hf : p.fdA i = dirFd pos)
    (hpos : pos ≤ img.fsStats 0 + 1) (hyes : c.asks i = true) :
    { ret := out.ret, bytes := out.bytes } = dirOut img pos ∧ out.pcb.fdA i = dirFd (nextPos img pos) := by
  cases c with
  | «open» fname => cases hyes
  | close fd => cases hyes
  | read fd buf nbytes =>
    obtain ⟨rfl, rfl, hn⟩ : fd = i.val ∧ buf = true ∧ 0 < nbytes.toInt := by simpa [Call.asks] using hyes
    rw [Call.out, Option.some.injEq] at ho
    subst ho
    rw [readFunc_dirFd hf hn]
    exact readDir_dirFd hf hpos
  | write fd buf nbytes => cases hyes

/-- Along any calls that do not close it, a directory descriptor yields one thing after the other, up to the place behind the last
entry and then nothing for ever. -/
theorem run_dirFd {cs : List Call} : ∀ {k k' : PCB × σ} {pos : Nat}, k.1.fdA i = dirFd pos → pos ≤ img.fsStats 0 + 1 →
    (∀ c ∈ cs, c ≠ .close i.val) → run (callStep img dev) k cs = .ok k' →
    readsOn img dev i k cs = (List.range (cs.countP (Call.asks i))).map (fun j => dirOut img (min (pos + j) (img.fsStats 0 + 1))) := by
  induction cs with
  | nil => exact fun _ _ _ _ => rfl
  | cons c cs ih =>
    intro k k' pos hf hpos hc hr
    rw [run_cons, Outcome.andThen_eq_ok] at hr
    obtain ⟨k₁, hs, hr⟩ := hr
    obtain ⟨out, ho, rfl⟩ := callStep_eq_ok hs
    have hlater : ∀ c' ∈ cs, c' ≠ .close i.val := fun c' h' => hc c' (List.mem_cons_of_mem _ h')
    rw [readsOn, ho]
    dsimp only
    by_cases hasks : c.asks i = true
    · obtain ⟨hout, hnext⟩ := call_asks ho hf hpos hasks
      rw [if_pos hasks, hout, ih hnext (Nat.min_le_right _ _) hlater hr, List.countP_cons_of_pos hasks, List.range_succ_eq_map,
        List.map_cons, List.map_map, show min (pos + 0) (img.fsStats 0 + 1) = pos from Nat.min_eq_left hpos]
      refine congrArg (dirOut img pos :: ·) (List.map_congr_left (fun j _ => ?_))
      rw [Function.comp_apply]
      congr 1
      omega
    · rw [if_neg hasks, ih (call_not_asks ho hf (hc c List.mem_cons_self) hasks) hpos hlater hr, List.countP_cons_of_neg hasks]
      rfl

/-- What `open_func` leaves in the descriptor it returns for a directory. -/
theorem openFunc_dirFd {fname : CPtr} {d : Dentry} (hd : readDentryByName img fname = some d) (hdir : d.fileType = 1)
    {out : CallOut σ} (ho : openFunc img dev s p fname = some out) (hi : out.ret = i.val) : out.pcb.fdA i = dirFd 1 := by
  rw [openFunc_fd hd ho hi]
  simp [openedFd, hdir, dirFd]

/-! ### What is listed -/

/-- The copy of an entry has its name for a string when the string ends in the field or right after it. -/
theorem copy_string_iff (d : Dentry) : strcpyBytes d.copy.filename = d.name ↔ ∃ z ≤ fileNameCharmax, d.filename z = 0 := by
  constructor
  · intro h
    by_contra hnone
    push Not at hnone
    have hlong : 33 ≤ strlen d.copy.filename := by
      refine le_strlen (fun j hj => ?_) (by decide)
      rw [show d.copy.filename j = d.filename j from if_pos (by omega)]
      exact hnone j (Nat.le_of_lt_succ hj)
    have hlen := congrArg List.length h
    rw [strcpyBytes, slice_length, Dentry.name, List.length_take] at hlen
    unfold fileNameCharmax at hlen
    omega
  · rintro ⟨z, hz, hzero⟩
    have hsame : SameString d.filename d.copy.filename :=
      ⟨z, hzero, fun j hj => if_pos (by unfold fileNameCharmax at hz; omega)⟩
    rw [strcpyBytes_congr hsame, Dentry.name, List.take_of_length_le]
    rw [strcpyBytes, slice_length]
    exact Nat.le_trans (strlen_le hzero) hz

theorem copy_string_eq_nil_iff (d : Dentry) : strcpyBytes d.copy.filename = [] ↔ d.filename 0 = 0 := by
  constructor
  · intro h
    by_contra hne
    have hlong : 1 ≤ strlen d.copy.filename := by
      refine le_strlen (fun j hj => ?_) (by decide)
      rw [Nat.lt_one_iff.mp hj]
      exact hne
    have hlen := congrArg List.length h
    rw [strcpyBytes, slice_length, List.length_nil] at hlen
    omega
  · intro hzero
    have hend : strlen d.copy.filename ≤ 0 := strlen_le hzero
    rw [strcpyBytes, Nat.le_zero.mp hend]
    rfl

/-- The reads enumerate the directory when what they come to ends in time. -/
theorem enumerates_iff (h0 : 0 < img.fsStats 0) (m : Nat) :
    Enumerates img ((List.range m).map (fun j => dirOut img (min (1 + j) (img.fsStats 0 + 1)))) ↔ img.EndsInTime m := by
  have hget : ∀ j out, ((List.range m).map (fun j => dirOut img (min (1 + j) (img.fsStats 0 + 1))))[j]? = some out ↔
      j < m ∧ dirOut img (min (1 + j) (img.fsStats 0 + 1)) = out := by
    intro j out
    rw [List.getElem?_map, Option.map_eq_some_iff]
    constructor
    · rintro ⟨j', hj', he⟩
      obtain ⟨hlt, rfl⟩ := List.getElem?_eq_some_iff.mp hj'
      rw [List.length_range] at hlt
      rw [List.getElem_range] at he
      exact ⟨hlt, he⟩
    · rintro ⟨hlt, he⟩
      exact ⟨j, List.getElem?_range hlt, he⟩
  constructor
  · intro h
    constructor
    · intro j h1 hj hlt
      have hread := h.entries (j - 1) _ ((hget _ _).mpr ⟨by omega, rfl⟩) (by omega)
      rw [show min (1 + (j - 1)) (img.fsStats 0 + 1) = j by omega, Nat.sub_add_cancel h1, dirOut, if_neg (by omega)] at hread
      exact (copy_string_iff _).mp (List.append_cancel_right hread.2)
    · intro hle
      have hread := h.ending (img.fsStats 0 - 1) _ ((hget _ _).mpr ⟨by omega, rfl⟩) (by omega)
      rw [show min (1 + (img.fsStats 0 - 1)) (img.fsStats 0 + 1) = img.fsStats 0 by omega, dirOut, if_neg (by omega)] at hread
      exact (copy_string_eq_nil_iff _).mp (List.length_eq_zero_iff.mp (Int.natCast_eq_zero.mp hread.1))
  · intro h
    constructor
    · intro j out hout hlt
      obtain ⟨hj, rfl⟩ := (hget j out).mp hout
      rw [show min (1 + j) (img.fsStats 0 + 1) = j + 1 by omega, dirOut, if_neg (by omega)]
      rw [(copy_string_iff _).mpr (h.entries (j + 1) (by omega) hj hlt)]
      exact ⟨rfl, rfl⟩
    · intro j out hout hle
      obtain ⟨hj, rfl⟩ := (hget j out).mp hout
      by_cases hlast : img.fsStats 0 = j + 1
      · rw [show min (1 + j) (img.fsStats 0 + 1) = img.fsStats 0 by omega, dirOut, if_neg (by omega)]
        rw [(copy_string_eq_nil_iff _).mpr (h.ending (by omega))]
        exact ⟨rfl, fun c hc => List.mem_singleton.mp hc⟩
      · rw [show min (1 + j) (img.fsStats 0 + 1) = img.fsStats 0 + 1 by omega, dirOut, if_pos (by omega)]
        exact ⟨rfl, fun c hc => by cases hc⟩

end DirectoryReadsAux

open DirectoryReadsAux FileDescAux

/-- Let a process open a directory and then make any calls that do not close the descriptor it got. The reads on the descriptor
deliver the entries after the first, each once and in order, and then nothing for ever, exactly when what they come to ends in time. -/
theorem directory_enumerated_iff {img : Image} (dev : Devices σ) {p : PCB} {s : σ} {fname : CPtr} {d : Dentry}
    (hd : readDentryByName img fname = some d) (hdir : d.fileType = 1) {out : CallOut σ}
    (ho : openFunc img dev s p fname = some out) {i : Fin 8} (hi : out.ret = i.val) {cs : List Call} (hc : ∀ c ∈ cs, c ≠ .close i.val)
    {k : PCB × σ} (hr : run (callStep img dev) (out.pcb, out.dev) cs = .ok k) :
    Enumerates img (readsOn img dev i (out.pcb, out.dev) cs) ↔ img.EndsInTime (cs.countP (Call.asks i)) := by
  obtain ⟨j, hj, -⟩ := readDentryByName_mem hd
  rw [run_dirFd (openFunc_dirFd hd hdir ho hi) (by omega) hc hr]
  exact enumerates_iff (Nat.zero_lt_of_lt hj) _

/-- A directory of itself and one file. What is behind the last entry is not zero. -/
def smallDirImage : Image :=
  Image.ofParts [(0, [2]), (64, ascii "."), (96, [1]), (128, ascii "cat"), (160, [2]), (192, ascii "x")]

/-- The root shell after opening that directory as descriptor 2. -/
def openedDir : CallOut Unit :=
  { ret := 2, bytes := [], pcb := opened rootShellPCB.initFds 2 (smallDirImage.dentry 0).copy, dev := () }

/-- The first read. -/
theorem directory_enumerated_iff_openedDir :
    Enumerates smallDirImage (readsOn smallDirImage quietDevices 2 (openedDir.pcb, openedDir.dev) [.read 2 true 32]) := by
  have hd : readDentryByName smallDirImage (cstr (ascii ".")) = some (smallDirImage.dentry 0).copy := rfl
  have ho : openFunc smallDirImage quietDevices () rootShellPCB.initFds (cstr (ascii ".")) = some openedDir := rfl
  have hi : openedDir.ret = (2 : Fin 8).val := rfl
  have hc : ∀ c ∈ [Call.read 2 true 32], c ≠ .close (2 : Fin 8).val := by simp
  refine (directory_enumerated_iff quietDevices hd (by decide) ho hi hc rfl).mpr ?_
  refine ⟨fun j h1 h2 _ => ?_, fun h => absurd h (by decide)⟩
  obtain rfl : j = 1 := Nat.le_antisymm h2 h1
  exact ⟨3, by decide, by decide⟩

/-- The second read delivers what is behind the last entry. -/
theorem smallDirImage_reads_on :
    openFunc smallDirImage quietDevices () rootShellPCB.initFds (cstr (ascii ".")) = some openedDir ∧
      ¬Enumerates smallDirImage (readsOn smallDirImage quietDevices 2 (openedDir.pcb, openedDir.dev)
        [.read 2 true 32, .read 2 true 32]) := by
  refine ⟨rfl, fun h => ?_⟩
  have hlast := h.ending 1 { ret := 1, bytes := ascii "x" ++ [0] } rfl (by decide)
  exact absurd hlast.1 (by decide)

end ThreeTermOS
