import Mathlib.Tactic.FinCases
import ThreeTermOS.Lemmas.Directory
import ThreeTermOS.Lemmas.FileDesc
import ThreeTermOS.Theorems.SequentialRead
import ThreeTermOS.Volume

/-!
# An image as a volume

What the entries of an image stand for, what the descriptors of a process still have to read, and each file system call on the image
as the call on the volume.
-/

namespace ThreeTermOS

open Bytes Runs SlotTable

/-- What an entry of an image stands for. -/
def Image.node (img : Image) (d : Dentry) : Node :=
  match d.fileType with
  | 0 => .rtc
  | 1 => .dir
  | _ => .file (if d.inodeNum < img.fsStats 1 then some (img.fileBytes d.inodeNum) else none)

/-- The volume an image holds. -/
def Image.volume (img : Image) : Volume :=
  { entries := (List.range (img.fsStats 0)).map (fun i => ((img.dentry i).name, img.node (img.dentry i))) }

/-- What a descriptor still has to read. -/
def Image.handle (img : Image) (f : Fd) : Option Handle :=
  f.fopsPtr.map (fun
    | .stdin => .stdin
    | .stdout => .stdout
    | .rtc => .rtc
    | .dir => .dir (img.volume.names.drop (f.pos - 1))
    | .file => .file (if f.inodeNum < img.fsStats 1 then some ((img.fileBytes f.inodeNum).drop f.pos) else none))

/-- The descriptors of a process on the volume. -/
def Image.handles (img : Image) (p : PCB) : Handles := fun i => img.handle (p.fdA i)

/-- An image as the tool that makes it leaves it: the types are known, a name that fills its field is followed by a zero, the inodes
are sound, and a zero byte lies behind the last entry. -/
structure Image.WellFormed (img : Image) : Prop where
  types : KnownTypes img
  names : ∀ i < img.fsStats 0, (img.dentry i).name.length = fileNameCharmax → (img.dentry i).fileType = 0
  inodes : ∀ n < img.fsStats 1, img.SoundInode n
  ending : (img.dentry (img.fsStats 0)).filename 0 = 0

/-- A descriptor whose position is one that reading leads to. -/
structure Image.FdOk (img : Image) (f : Fd) : Prop where
  flags : f.flags = 0
  dir : f.fopsPtr = some .dir → 1 ≤ f.pos
  file : f.fopsPtr = some .file → f.inodeNum < img.fsStats 1 → f.pos ≤ (img.fileBytes f.inodeNum).length

/-- A process whose descriptors are right. -/
structure Image.ProcessOk (img : Image) (p : PCB) : Prop where
  table : TableOk p
  fds : ∀ i, img.FdOk (p.fdA i)

namespace VolumeAux

open DirectoryAux FileDescAux LibAux SequentialReadAux

variable {σ : Type} {img : Image} {dev : Devices σ} {s : σ} {p : PCB} {f : Fd} {i : Fin 8}

/-! ### The directory -/

/-- The string at the start of an entry is its name. -/
theorem string_of_wellFormed (h : img.WellFormed) {j : Nat} (hj : j < img.fsStats 0) :
    strcpyBytes (img.dentry j).filename = (img.dentry j).name := by
  rw [string_eq (h.types j hj), if_neg]
  rintro ⟨hfull, htype⟩
  exact htype (h.names j hj hfull)

/-- The lookup of a name, on the volume. -/
theorem find_volume (h : img.WellFormed) (fname : CPtr) :
    img.volume.find (strcpyBytes fname) = (readDentryByName img fname).map img.node := by
  have hnode : ∀ d : Dentry, img.node d.copy = img.node d := by
    intro d
    unfold Image.node
    rw [copy_fileType, copy_inodeNum]
  unfold Volume.find Image.volume
  rw [List.find?_map, Option.map_map]
  cases hd : readDentryByName img fname with
  | none =>
    rw [List.find?_eq_none.mpr]
    · rfl
    · intro j hj
      have hlt := List.mem_range.mp hj
      have hne := readDentryByName_eq_none.mp hd j hlt
      rw [string_of_wellFormed h hlt] at hne
      simpa using hne
  | some d =>
    obtain ⟨j, ⟨hlt, hstring, hfirst⟩, rfl⟩ := readDentryByName_eq_some.mp hd
    have hfind : (List.range (img.fsStats 0)).find?
        ((fun e => decide (e.1 = strcpyBytes fname)) ∘ fun i => ((img.dentry i).name, img.node (img.dentry i))) = some j := by
      rw [List.find?_range_eq_some]
      refine ⟨?_, List.mem_range.mpr hlt, fun k hk => ?_⟩
      · rw [Function.comp_apply, ← string_of_wellFormed h hlt, hstring]
        exact decide_eq_true rfl
      · have hne := hfirst k hk
        rw [string_of_wellFormed h (Nat.lt_trans hk hlt)] at hne
        simpa using hne
    rw [hfind, Option.map_some, Option.map_some, hnode]
    rfl

/-- The names a directory still gives at a position: none past the number of entries, or the string of the entry there and the rest. -/
theorem names_drop (h : img.WellFormed) {pos : Nat} (hpos : 1 ≤ pos) :
    img.volume.names.drop (pos - 1) = if pos > img.fsStats 0 then [] else
      strcpyBytes (img.dentry pos).copy.filename :: img.volume.names.drop pos := by
  have hlen : img.volume.names.length = img.fsStats 0 := by
    simp [Volume.names, Image.volume]
  split
  · exact List.drop_of_length_le (by omega)
  · rename_i hle
    have hlt : pos - 1 < img.volume.names.length := by omega
    rw [List.drop_eq_getElem_cons hlt, Nat.sub_add_cancel hpos]
    congr 1
    have hidx : pos < (img.volume.entries.map Prod.fst ++ [[]]).length := by
      simp [Image.volume]
      omega
    have hget : img.volume.names[pos - 1] = (img.volume.entries.map Prod.fst ++ [[]])[pos] := by
      simp only [Volume.names, List.getElem_tail]
      congr 1
      omega
    rw [hget]
    by_cases hend : pos = img.fsStats 0
    · -- behind the last entry
      subst hend
      rw [List.getElem_append_right (by simp [Image.volume])]
      have hzero : strcpyBytes (img.dentry (img.fsStats 0)).copy.filename = [] := by
        have hcopy : (img.dentry (img.fsStats 0)).copy.filename 0 = 0 := h.ending
        unfold strcpyBytes
        rw [Nat.le_zero.mp (strlen_le hcopy)]
        rfl
      rw [hzero]
      simp
    · have hj : pos < img.fsStats 0 := by omega
      rw [List.getElem_append_left (by simp [Image.volume]; omega)]
      rw [strcpyBytes_congr (sameString_copy (h.types pos hj)), string_of_wellFormed h hj]
      simp [Image.volume]

/-! ### The calls -/

theorem handle_eq_none : img.handle f = none ↔ f.fopsPtr = none := Option.map_eq_none_iff

theorem closed_handles : (img.handles p).closed = findClosed p.fdA := by
  unfold Handles.closed findClosed Image.handles Image.handle
  simp only [Option.isNone_map]

/-- The descriptors after one of them changed. -/
theorem handles_setFd (p : PCB) (i : Fin 8) (f : Fd) :
    img.handles (p.setFd i f) = Function.update (img.handles p) i (img.handle f) := by
  funext j
  by_cases hj : j = i
  · subst hj
    simp [Image.handles, PCB.setFd]
  · simp [Image.handles, PCB.setFd, hj]

/-- A change of position leaves the table right. -/
theorem tableOk_setPos (h : TableOk p) (pos : Nat) : TableOk (p.setFd i { p.fdA i with pos := pos }) := by
  refine tableOk_congr h (fun j => ?_) rfl
  by_cases hj : j = i
  · subst hj
    simp [PCB.setFd]
  · simp [PCB.setFd, hj]

/-- A process whose descriptor changed to one that is right. -/
theorem fds_setFd (h : ∀ i, img.FdOk (p.fdA i)) (hf : img.FdOk f) (j : Fin 8) : img.FdOk ((p.setFd i f).fdA j) := by
  by_cases hj : j = i
  · subst hj
    simpa [PCB.setFd] using hf
  · simpa [PCB.setFd, hj] using h j

/-- A descriptor `open_func` fills in. -/
theorem handle_openedFd (img : Image) {d : Dentry} (old : Fd) (h : d.fileType = 0 ∨ d.fileType = 1 ∨ d.fileType = 2) :
    img.handle (openedFd d old) = some (img.volume.handle (img.node d)) ∧ img.FdOk (openedFd d old) := by
  unfold Image.node
  rcases h with h | h | h
  · have hnew : openedFd d old = { fopsPtr := some .rtc, inodeNum := minusOne, pos := 0, flags := 0 } := by simp [openedFd, h]
    rw [hnew, h]
    exact ⟨rfl, rfl, fun hdir => (by cases hdir), fun hfile => by cases hfile⟩
  · have hnew : openedFd d old = { fopsPtr := some .dir, inodeNum := minusOne, pos := 1, flags := 0 } := by simp [openedFd, h]
    rw [hnew, h]
    exact ⟨rfl, rfl, fun _ => Nat.le_refl 1, fun hfile => by cases hfile⟩
  · have hnew : openedFd d old = { fopsPtr := some .file, inodeNum := d.inodeNum, pos := 0, flags := 0 } := by simp [openedFd, h]
    rw [hnew, h]
    exact ⟨rfl, rfl, fun hdir => (by cases hdir), fun _ _ => Nat.zero_le _⟩

/-- What `open_func` does with a descriptor to fill and an entry of a known type. -/
theorem openFunc_opens {fname : CPtr} {d : Dentry} (hlt : p.fdTotalOpen < 7) (hd : readDentryByName img fname = some d)
    (hi : findClosed p.fdA = some i) (ht : d.fileType = 0 ∨ d.fileType = 1 ∨ d.fileType = 2) :
    openFunc img dev s p fname =
      some { ret := i.val, bytes := [], pcb := opened p i d, dev := if img.node d = .rtc then dev.rtcOpen s else s } := by
  unfold openFunc Image.node
  rw [if_neg (show ¬p.fdTotalOpen ≥ maxFd - 1 by simp only [maxFd]; omega), hd]
  simp only [hi]
  rcases ht with ht | ht | ht <;> simp [PCB.setFd, openedFd, ht, Fops.open, opened, fileOpen]

theorem open_volume (dev : Devices σ) (s : σ) (h : img.WellFormed) (hp : img.ProcessOk p) (fname : CPtr) :
    ∃ out, openFunc img dev s p fname = some out ∧ img.ProcessOk out.pcb ∧
      img.volume.opens dev (img.handles p) s (strcpyBytes fname) =
        ({ ret := out.ret, bytes := out.bytes }, img.handles out.pcb, out.dev) := by
  unfold Volume.opens
  rw [closed_handles, find_volume h]
  by_cases hfull : 7 ≤ p.fdTotalOpen
  · have hnone : findClosed p.fdA = none := by
      cases hi : findClosed p.fdA with
      | none => rfl
      | some i => exact absurd (findClosed_eq_some.mp hi) (not_isLowestFree hp.table hfull i)
    rw [hnone]
    exact ⟨_, openFunc_of_full hfull, hp, rfl⟩
  · have hlt : p.fdTotalOpen < 7 := Nat.lt_of_not_le hfull
    obtain ⟨i, hi⟩ := exists_findClosed hp.table hlt
    rw [hi]
    cases hd : readDentryByName img fname with
    | none => exact ⟨_, openFunc_of_not_found hlt hd, hp, rfl⟩
    | some d =>
      have ht := fileType_of_readDentryByName h.types hd
      obtain ⟨hhandle, hfd⟩ := handle_openedFd img (p.fdA i) ht
      refine ⟨_, openFunc_opens hlt hd hi ht, ⟨tableOk_opened hp.table hi ht, fds_setFd hp.fds hfd⟩, ?_⟩
      have hafter : img.handles (opened p i d) = Function.update (img.handles p) i (some (img.volume.handle (img.node d))) := by
        rw [← hhandle, ← handles_setFd]
        rfl
      rw [hafter]
      rfl

theorem close_volume (dev : Devices σ) (s : σ) (hp : img.ProcessOk p) (fd : Nat) :
    img.ProcessOk (closeFunc dev s p fd).pcb ∧ Volume.closes (img.handles p) s fd =
      ({ ret := (closeFunc dev s p fd).ret, bytes := (closeFunc dev s p fd).bytes }, img.handles (closeFunc dev s p fd).pcb,
        (closeFunc dev s p fd).dev) := by
  unfold Volume.closes
  rcases closeFunc_cases dev s hp.table fd with ⟨i, rfl, hge, hopen, hc⟩ | ⟨hno, hc⟩
  · rw [hc, fdIndex_eq_some.mpr rfl]
    have hafter : img.handles (closed p i) = Function.update (img.handles p) i none := handles_setFd p i closedFd
    have hfd : img.FdOk closedFd := ⟨rfl, fun hdir => (by cases hdir), fun hfile => by cases hfile⟩
    refine ⟨⟨tableOk_closed hp.table hge hopen, fds_setFd hp.fds hfd⟩, ?_⟩
    dsimp only
    rw [if_pos ⟨hge, fun hn => hopen (handle_eq_none.mp hn)⟩, hafter]
  · rw [hc]
    refine ⟨hp, ?_⟩
    cases hi : fdIndex (fd : Int) with
    | none => rfl
    | some i =>
      have hval : i.val = fd := by exact_mod_cast fdIndex_eq_some.mp hi
      dsimp only
      rw [if_neg]
      · rfl
      · rintro ⟨hge, hopen⟩
        exact hno ⟨i, hval, hval ▸ hge, fun hn => hopen (handle_eq_none.mpr hn)⟩

theorem write_volume (dev : Devices σ) (s : σ) (hp : img.ProcessOk p) (fd : Int) (buf : Option (List UInt8)) (nbytes : Int32) :
    Volume.writes dev (img.handles p) s fd buf nbytes =
      ({ ret := (writeFunc dev s p fd buf nbytes).ret, bytes := (writeFunc dev s p fd buf nbytes).bytes }, img.handles p,
        (writeFunc dev s p fd buf nbytes).dev) := by
  unfold Volume.writes writeFunc
  cases fdIndex fd with
  | none => cases buf <;> simp [CallOut.fail, Reply.fail]
  | some i =>
    have hflags : (p.fdA i).flags ≠ inUse := by
      rw [(hp.fds i).flags]
      decide
    cases hf : (p.fdA i).fopsPtr with
    | none =>
      have hnone : img.handles p i = none := handle_eq_none.mpr hf
      cases buf <;> simp [CallOut.fail, Reply.fail, hnone, hf]
    | some fops =>
      cases buf with
      | none => simp [CallOut.fail, Reply.fail, hf]
      | some bytes =>
        have hhandle : img.handles p i = img.handle (p.fdA i) := rfl
        unfold Image.handle at hhandle
        rw [hf] at hhandle
        by_cases hn : nbytes.toInt ≤ 0
        · simp [CallOut.fail, Reply.fail, hf, hn]
        · cases fops <;> simp [hf, hn, hflags, hhandle, Fops.write, CallOut.fail, Reply.fail, fileWrite]

/-- A read on a directory takes the next name off what is left. -/
theorem readDir_volume (h : img.WellFormed) (hp : img.ProcessOk p) (hf : (p.fdA i).fopsPtr = some .dir) :
    img.ProcessOk (readDir img p s i).pcb ∧
      Volume.readNames (img.handles p) s i (img.volume.names.drop ((p.fdA i).pos - 1)) =
        ({ ret := (readDir img p s i).ret, bytes := (readDir img p s i).bytes }, img.handles (readDir img p s i).pcb,
          (readDir img p s i).dev) := by
  have hfd := hp.fds i
  rw [names_drop h (hfd.dir hf)]
  unfold readDir readDentryByIndex
  by_cases hend : (p.fdA i).pos > img.fsStats 0
  · rw [if_pos hend, if_pos hend]
    exact ⟨hp, rfl⟩
  · rw [if_neg hend, if_neg hend]
    have hok : img.FdOk { p.fdA i with pos := (p.fdA i).pos + 1 } := by
      refine ⟨hfd.flags, fun _ => Nat.le_add_left 1 _, fun hfile => ?_⟩
      rw [hf] at hfile
      cases hfile
    refine ⟨⟨tableOk_setPos hp.table _, fds_setFd hp.fds hok⟩, ?_⟩
    dsimp only
    rw [handles_setFd]
    unfold Image.handle
    rw [hf]
    rfl

/-- Reading on in a file moves its position past what was read. -/
theorem setPos_volume (hp : img.ProcessOk p) (hf : (p.fdA i).fopsPtr = some .file) (hn : (p.fdA i).inodeNum < img.fsStats 1)
    {pos : Nat} (hpos : pos ≤ (img.fileBytes (p.fdA i).inodeNum).length) :
    img.ProcessOk (p.setFd i { p.fdA i with pos := pos }) ∧ img.handles (p.setFd i { p.fdA i with pos := pos }) =
      Function.update (img.handles p) i (some (.file (some ((img.fileBytes (p.fdA i).inodeNum).drop pos)))) := by
  have hok : img.FdOk { p.fdA i with pos := pos } := by
    refine ⟨(hp.fds i).flags, fun hdir => ?_, fun _ _ => hpos⟩
    rw [hf] at hdir
    cases hdir
  refine ⟨⟨tableOk_setPos hp.table _, fds_setFd hp.fds hok⟩, ?_⟩
  rw [handles_setFd]
  unfold Image.handle
  rw [hf]
  dsimp only [Option.map_some]
  rw [if_pos hn]

/-- A read on a file takes the next bytes off what is left. -/
theorem readDataFile_volume (h : img.WellFormed) (hp : img.ProcessOk p) (hf : (p.fdA i).fopsPtr = some .file) {len : Nat}
    (hlen : len < 2 ^ 31) :
    img.ProcessOk (readDataFile img p s i len).pcb ∧
      Volume.readBytes (img.handles p) s i len
          (if (p.fdA i).inodeNum < img.fsStats 1 then some ((img.fileBytes (p.fdA i).inodeNum).drop (p.fdA i).pos) else none) =
        ({ ret := (readDataFile img p s i len).ret, bytes := (readDataFile img p s i len).bytes },
          img.handles (readDataFile img p s i len).pcb, (readDataFile img p s i len).dev) := by
  unfold readDataFile
  by_cases hn : (p.fdA i).inodeNum < img.fsStats 1
  · have hpos := (hp.fds i).file hf hn
    rw [if_pos hn, readData_eq_readOut hn (h.inodes _ hn) hpos hlen]
    dsimp only [readOut, Volume.readBytes]
    have hlength : (((img.fileBytes (p.fdA i).inodeNum).drop (p.fdA i).pos).take len).length =
        min len ((img.fileBytes (p.fdA i).inodeNum).length - (p.fdA i).pos) := by
      rw [List.length_take, List.length_drop]
    -- what is left begins at the new position, at the end of the file too
    have hdrop : ∀ pos, pos = (p.fdA i).pos + min len ((img.fileBytes (p.fdA i).inodeNum).length - (p.fdA i).pos) →
        (img.fileBytes (p.fdA i).inodeNum).drop ((p.fdA i).pos + len) = (img.fileBytes (p.fdA i).inodeNum).drop pos := by
      rintro pos rfl
      by_cases hle : len ≤ (img.fileBytes (p.fdA i).inodeNum).length - (p.fdA i).pos
      · rw [Nat.min_eq_left hle]
      · rw [List.drop_of_length_le (by omega), List.drop_of_length_le (by omega)]
    rw [List.drop_drop]
    split
    · -- nothing was read: nothing is left, or nothing was asked for
      obtain ⟨-, hsame⟩ := setPos_volume hp hf hn hpos
      have heta : p.setFd i { p.fdA i with pos := (p.fdA i).pos } = p := by
        unfold PCB.setFd
        rw [Function.update_eq_self]
      rw [heta] at hsame
      rw [hdrop (p.fdA i).pos (by omega), ← hsame]
      exact ⟨hp, rfl⟩
    · rw [Int.toNat_natCast]
      have hle : (p.fdA i).pos + (((img.fileBytes (p.fdA i).inodeNum).drop (p.fdA i).pos).take len).length ≤
          (img.fileBytes (p.fdA i).inodeNum).length := by omega
      obtain ⟨hok, hafter⟩ := setPos_volume hp hf hn hle
      rw [hdrop _ (congrArg ((p.fdA i).pos + ·) hlength), ← hafter]
      exact ⟨hok, rfl⟩
  · rw [if_neg hn, readData_of_le _ _ (Nat.le_of_not_lt hn)]
    exact ⟨hp, rfl⟩

theorem read_volume (dev : Devices σ) (s : σ) (h : img.WellFormed) (hp : img.ProcessOk p) (fd : Int) (buf : Bool) (nbytes : Int32) :
    img.ProcessOk (readFunc img dev s p fd buf nbytes).pcb ∧ Volume.reads dev (img.handles p) s fd buf nbytes =
      ({ ret := (readFunc img dev s p fd buf nbytes).ret, bytes := (readFunc img dev s p fd buf nbytes).bytes },
        img.handles (readFunc img dev s p fd buf nbytes).pcb, (readFunc img dev s p fd buf nbytes).dev) := by
  unfold Volume.reads
  by_cases hbad : nbytes.toInt ≤ 0 ∨ buf = false
  · rw [if_pos hbad, readFunc_refused hbad.symm]
    exact ⟨hp, rfl⟩
  rw [if_neg hbad]
  unfold readFunc
  cases fdIndex fd with
  | none => exact ⟨hp, rfl⟩
  | some i =>
    have hargs : ¬(nbytes.toInt ≤ 0 ∨ buf = false ∨ (p.fdA i).flags = inUse) := by
      rw [(hp.fds i).flags]
      rintro (hn | hb | hz)
      · exact hbad (Or.inl hn)
      · exact hbad (Or.inr hb)
      · cases hz
    have hhandle : img.handles p i = img.handle (p.fdA i) := rfl
    unfold Image.handle at hhandle
    cases hf : (p.fdA i).fopsPtr with
    | none =>
      rw [hf] at hhandle
      simp only [hf, hhandle, Option.map_none]
      exact ⟨hp, rfl⟩
    | some fops =>
      rw [hf, Option.map_some] at hhandle
      simp only [hf]
      rw [if_neg hargs]
      cases fops with
      | stdin =>
        simp only [hhandle, Fops.read]
        exact ⟨hp, trivial⟩
      | stdout =>
        simp only [hhandle, Fops.read]
        exact ⟨hp, rfl⟩
      | rtc =>
        simp only [hhandle, Fops.read]
        exact ⟨hp, trivial⟩
      | dir =>
        simp only [hhandle, Fops.read]
        exact readDir_volume h hp hf
      | file =>
        simp only [hhandle, Fops.read]
        have hlt : nbytes.toInt.toNat < 2 ^ 31 := by
          have := nbytes.toInt_lt
          omega
        exact readDataFile_volume h hp hf hlt

/-- A call on the image is the call on the volume. -/
theorem call_volume (dev : Devices σ) (s : σ) (h : img.WellFormed) (hp : img.ProcessOk p) (c : Call) :
    ∃ out, c.out img dev s p = some out ∧ img.ProcessOk out.pcb ∧
      img.volume.call dev (img.handles p) s c = ({ ret := out.ret, bytes := out.bytes }, img.handles out.pcb, out.dev) := by
  cases c with
  | «open» fname => exact open_volume dev s h hp fname
  | close fd =>
    obtain ⟨hok, hcall⟩ := close_volume dev s hp fd
    exact ⟨_, rfl, hok, hcall⟩
  | read fd buf nbytes =>
    obtain ⟨hok, hcall⟩ := read_volume dev s h hp fd buf nbytes
    exact ⟨_, rfl, hok, hcall⟩
  | write fd buf nbytes =>
    refine ⟨_, rfl, ?_, ?_⟩
    · rw [writeFunc_pcb]
      exact hp
    · rw [writeFunc_pcb]
      exact write_volume dev s hp fd buf nbytes

/-- The descriptors a process starts with. -/
theorem processOk_initFds (p : PCB) : img.ProcessOk p.initFds := by
  refine ⟨tableOk_initFds p, fun i => ?_⟩
  have hstart : ∀ i, (fdAInit i).flags = 0 ∧ (fdAInit i).fopsPtr ≠ some .dir ∧ (fdAInit i).fopsPtr ≠ some .file := by decide
  obtain ⟨hflags, hdir, hfile⟩ := hstart i
  exact ⟨hflags, fun h => absurd h hdir, fun h => absurd h hfile⟩

theorem handles_initFds (img : Image) (p : PCB) : img.handles p.initFds = Handles.start := by
  funext i
  fin_cases i <;> rfl

end VolumeAux

end ThreeTermOS
