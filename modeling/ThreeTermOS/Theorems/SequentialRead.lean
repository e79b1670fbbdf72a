import ThreeTermOS.Lemmas.FileDesc
import ThreeTermOS.Lemmas.FileSys

/-!
# Reading a file in pieces

The reads on a descriptor of a regular file, of whatever sizes and with whatever other calls in between, deliver the file from
its start, in order: after reads that asked for `m` bytes in all, the first `m` bytes of the file were delivered.
-/

namespace ThreeTermOS

open Bytes Runs

variable {σ : Type}

/-- The call is a read on the descriptor. -/
def Call.readsFrom (i : Fin 8) : Call → Bool
  | .read fd _ _ => decide (fd = i.val)
  | _ => false

/-- The number of bytes a call asks the descriptor for. -/
def Call.requested (i : Fin 8) : Call → Nat
  | .read fd buf nbytes => if fd = i.val ∧ buf = true then nbytes.toInt.toNat else 0
  | _ => 0

/-- The bytes the reads on a descriptor deliver, one after the other, along the calls a process makes. -/
def bytesRead (img : Image) (dev : Devices σ) (i : Fin 8) : PCB × σ → List Call → List UInt8
  | _, [] => []
  | k, c :: cs =>
    match c.out img dev k.2 k.1 with
    | none => []
    | some out => (if c.readsFrom i then out.bytes else []) ++ bytesRead img dev i (out.pcb, out.dev) cs

namespace SequentialReadAux

open FileDescAux

variable {img : Image} {dev : Devices σ} {s : σ} {p : PCB} {i : Fin 8} {n : Nat} {file : List UInt8}

/-- The bytes of a file from a position on, as many as asked for and are left. -/
def readOut (file : List UInt8) (pos len : Nat) : ReadOut :=
  { ret := ((file.drop pos).take len).length, bytes := (file.drop pos).take len }

/-- `read_data` reads a file from an inode, or there is no inode and nothing to read. -/
def Delivers (img : Image) (n : Nat) (file : List UInt8) : Prop :=
  ∀ pos ≤ file.length, ∀ len < 2 ^ 31,
    readData img n pos len = readOut file pos len ∨ (file = [] ∧ readData img n pos len = { ret := -1, bytes := [] })

/-- On a sound inode `read_data` reads the file. -/
theorem readData_eq_readOut (hn : n < img.fsStats 1) (hs : img.SoundInode n) {pos len : Nat}
    (hpos : pos ≤ (img.fileBytes n).length) (hlen : len < 2 ^ 31) :
    readData img n pos len = readOut (img.fileBytes n) pos len := by
  have hsize := hs.size
  simp only [bytesPerBlock] at hsize
  rw [Image.fileBytes_length] at hpos
  have hcut : min len (img.val n 0 - pos) = (((img.fileBytes n).drop pos).take len).length := by simp
  have hbytes : slice (img.fileByte n) pos (min len (img.val n 0 - pos)) = ((img.fileBytes n).drop pos).take len := by
    have htake := take_drop_slice (img.fileByte n) (a := 0) (n := img.val n 0) (p := pos)
      (k := min len (img.val n 0 - pos)) (by omega)
    rw [Nat.zero_add] at htake
    rw [← htake, ← Image.fileBytes, List.take_eq_take_iff]
    simp
  rw [readData_eq hn hs (by omega) hlen, hbytes, hcut, readOut]

theorem delivers_of_soundInode (hn : n < img.fsStats 1) (hs : img.SoundInode n) : Delivers img n (img.fileBytes n) :=
  fun _ hpos _ hlen => Or.inl (readData_eq_readOut hn hs hpos hlen)

theorem delivers_nothing (hn : img.fsStats 1 ≤ n) : Delivers img n [] :=
  fun pos _ len _ => Or.inr ⟨rfl, readData_of_le pos len hn⟩

/-- A descriptor of a regular file at a position. -/
def fileFd (n pos : Nat) : Fd := { fopsPtr := some .file, inodeNum := n, pos := pos, flags := 0 }

/-- `read_func` on a descriptor of a regular file is `read_data_file`. -/
theorem readFunc_fileFd {pos : Nat} (hf : p.fdA i = fileFd n pos) {nbytes : Int32} (hn : 0 < nbytes.toInt) :
    readFunc img dev s p i.val true nbytes = readDataFile img p s i nbytes.toInt.toNat := by
  unfold readFunc
  rw [fdIndex_eq_some.mpr rfl]
  simp only [hf, fileFd, inUse]
  rw [if_neg (by simp; omega)]
  rfl

/-- `read_data_file` returns what `read_data` returned. -/
theorem readDataFile_ret (len : Nat) :
    (readDataFile img p s i len).ret = (readData img (p.fdA i).inodeNum (p.fdA i).pos len).ret := by
  unfold readDataFile
  dsimp only
  split <;> rfl

/-- One read on the descriptor delivers the next bytes of the file and moves the position past them. -/
theorem readDataFile_fileFd (hd : Delivers img n file) {pos len : Nat} (hf : p.fdA i = fileFd n pos) (hpos : pos ≤ file.length)
    (hlen : len < 2 ^ 31) :
    (readDataFile img p s i len).bytes = (file.drop pos).take len ∧
      (readDataFile img p s i len).pcb.fdA i = fileFd n (min file.length (pos + len)) := by
  unfold readDataFile
  rw [hf]
  rcases hd pos hpos len hlen with hout | ⟨rfl, hout⟩
  · have hlength : ((file.drop pos).take len).length = min len (file.length - pos) := by simp
    simp only [fileFd, hout, readOut]
    split
    · have hmin : min file.length (pos + len) = pos := by omega
      rw [hf, hmin]
      exact ⟨rfl, rfl⟩
    · have hmin : pos + min len (file.length - pos) = min file.length (pos + len) := by omega
      simp only [PCB.setFd, Function.update_self, Int.toNat_natCast, hlength, hmin]
      exact ⟨trivial, trivial⟩
  · simp only [fileFd, hout]
    rw [if_pos (by decide), hf]
    simp [fileFd, show pos = 0 by simpa using hpos]

/-- One call other than closing the descriptor delivers what it asks the descriptor for, and moves its position by that much. -/
theorem call_fileFd (hd : Delivers img n file) {pos : Nat} (hf : p.fdA i = fileFd n pos) (hpos : pos ≤ file.length) {c : Call}
    (hc : c ≠ .close i.val) {out : CallOut σ} (ho : c.out img dev s p = some out) :
    (if c.readsFrom i then out.bytes else []) = (file.drop pos).take (c.requested i) ∧
      out.pcb.fdA i = fileFd n (min file.length (pos + c.requested i)) := by
  have hstay : p.fdA i = fileFd n (min file.length (pos + 0)) := by
    rw [hf, Nat.add_zero, Nat.min_eq_right hpos]
  have hopen : (p.fdA i).fopsPtr ≠ none := by
    rw [hf]
    exact fun h => by cases h
  cases c with
  | «open» fname =>
    exact ⟨by simp [Call.readsFrom, Call.requested], (call_fdA ho hopen hc (fun _ _ h => by cases h)).trans hstay⟩
  | close fd =>
    exact ⟨by simp [Call.readsFrom, Call.requested], (call_fdA ho hopen hc (fun _ _ h => by cases h)).trans hstay⟩
  | read fd buf nbytes =>
    rw [Call.out, Option.some.injEq] at ho
    subst ho
    by_cases hfd : fd = i.val
    · subst hfd
      by_cases hok : buf = true ∧ 0 < nbytes.toInt
      · obtain ⟨rfl, hn⟩ := hok
        have hlt : nbytes.toInt.toNat < 2 ^ 31 := by
          have := nbytes.toInt_lt
          omega
        simpa [Call.readsFrom, Call.requested, readFunc_fileFd hf hn] using readDataFile_fileFd (s := s) hd hf hpos hlt
      · have hbad : buf = false ∨ nbytes.toInt ≤ 0 := by
          cases buf with
          | false => exact Or.inl rfl
          | true => exact Or.inr (by simpa using hok)
        have hz : Call.requested i (.read i.val buf nbytes) = 0 := by
          rcases hbad with h | h
          · simp [Call.requested, h]
          · simp only [Call.requested, Int.toNat_of_nonpos h, ite_self]
        rw [readFunc_refused hbad, hz]
        exact ⟨by simp [CallOut.fail], hstay⟩
    · have hz : Call.requested i (.read fd buf nbytes) = 0 := by simp [Call.requested, hfd]
      rw [hz, readFunc_fdA buf nbytes (fun h => hfd h.symm)]
      exact ⟨by simp [Call.readsFrom, hfd], hstay⟩
  | write fd buf nbytes =>
    exact ⟨by simp [Call.readsFrom, Call.requested], (call_fdA ho hopen hc (fun _ _ h => by cases h)).trans hstay⟩

/-- Along any calls that do not close it, a descriptor delivers as many bytes of the file, from its position on, as were asked
of it. -/
theorem run_fileFd (hd : Delivers img n file) {cs : List Call} :
    ∀ {k k' : PCB × σ} {pos : Nat}, k.1.fdA i = fileFd n pos → pos ≤ file.length → (∀ c ∈ cs, c ≠ .close i.val) →
      run (callStep img dev) k cs = .ok k' →
      bytesRead img dev i k cs = (file.drop pos).take (cs.map (Call.requested i)).sum ∧
        k'.1.fdA i = fileFd n (min file.length (pos + (cs.map (Call.requested i)).sum)) := by
  induction cs with
  | nil =>
    intro k k' pos hf hpos _ hr
    cases hr
    rw [List.map_nil, List.sum_nil, Nat.add_zero, Nat.min_eq_right hpos]
    exact ⟨by simp [bytesRead], hf⟩
  | cons c cs ih =>
    intro k k' pos hf hpos hc hr
    rw [run_cons, Outcome.andThen_eq_ok] at hr
    obtain ⟨k₁, hs, hr⟩ := hr
    obtain ⟨out, ho, rfl⟩ := callStep_eq_ok hs
    obtain ⟨hbytes, hfd⟩ := call_fileFd hd hf hpos (hc c (by simp)) ho
    obtain ⟨hrest, hfin⟩ := ih hfd (Nat.min_le_left _ _) (fun c' h' => hc c' (by simp [h'])) hr
    rw [bytesRead, ho]
    simp only [List.map_cons, List.sum_cons]
    constructor
    · rw [hbytes, hrest, List.take_add, List.drop_drop]
      congr 2
      by_cases hle : pos + c.requested i ≤ file.length
      · rw [Nat.min_eq_right hle]
      · rw [Nat.min_eq_left (by omega), List.drop_of_length_le (Nat.le_refl _), List.drop_of_length_le (by omega)]
    · rw [hfin]
      congr 1
      omega

/-- What `open_func` leaves in the descriptor it returns for a regular file. -/
theorem openFunc_fileFd {fname : CPtr} {d : Dentry} (hd : readDentryByName img fname = some d) (hreg : d.fileType = 2)
    {out : CallOut σ} (ho : openFunc img dev s p fname = some out) (hi : out.ret = i.val) :
    out.pcb.fdA i = fileFd d.inodeNum 0 := by
  rw [openFunc_fd hd ho hi]
  simp [openedFd, hreg, fileFd]

end SequentialReadAux

open SequentialReadAux FileDescAux in
/-- In an image of sound inodes, let a process open a regular file and then make any calls that do not close the descriptor it
got. The reads on the descriptor deliver the file from its start, as many bytes as they asked for in all, whatever the sizes of
the reads and whatever calls on other descriptors came between; the next read delivers the bytes that follow, and it returns 0
exactly when the whole file was delivered. An entry without an inode delivers nothing. -/
theorem readFunc_delivers_file_in_order {img : Image} (hs : ∀ n < img.fsStats 1, img.SoundInode n) (dev : Devices σ) {p : PCB}
    {s : σ} {fname : CPtr} {d : Dentry} (hd : readDentryByName img fname = some d) (hreg : d.fileType = 2) {out : CallOut σ}
    (ho : openFunc img dev s p fname = some out) {i : Fin 8} (hi : out.ret = i.val) {cs : List Call}
    (hc : ∀ c ∈ cs, c ≠ .close i.val) {k : PCB × σ} (hr : run (callStep img dev) (out.pcb, out.dev) cs = .ok k) :
    let got := bytesRead img dev i (out.pcb, out.dev) cs
    let next := fun nbytes : Int32 => readFunc img dev k.2 k.1 i.val true nbytes
    (d.inodeNum < img.fsStats 1 →
      got = (img.fileBytes d.inodeNum).take (cs.map (Call.requested i)).sum ∧
        (k.1.fdA i).pos = got.length ∧
        ∀ nbytes : Int32, 0 < nbytes.toInt →
          (next nbytes).bytes = ((img.fileBytes d.inodeNum).drop got.length).take nbytes.toInt.toNat ∧
            (next nbytes).ret = (next nbytes).bytes.length ∧
            ((next nbytes).ret = 0 ↔ got = img.fileBytes d.inodeNum)) ∧
      (img.fsStats 1 ≤ d.inodeNum →
        got = [] ∧ ∀ nbytes : Int32, 0 < nbytes.toInt → (next nbytes).bytes = [] ∧ (next nbytes).ret = -1) := by
  intro got next
  have hopen := openFunc_fileFd hd hreg ho hi
  constructor
  · intro hn
    have hdel := delivers_of_soundInode hn (hs _ hn)
    obtain ⟨hgot, hfin⟩ := run_fileFd hdel hopen (Nat.zero_le _) hc hr
    change got = _ at hgot
    rw [List.drop_zero] at hgot
    have hlen : got.length = min (img.fileBytes d.inodeNum).length (cs.map (Call.requested i)).sum := by
      rw [hgot, List.length_take, Nat.min_comm]
    have hfd : k.1.fdA i = fileFd d.inodeNum got.length := by rw [hfin, hlen, Nat.zero_add]
    refine ⟨hgot, by rw [hfd, fileFd], ?_⟩
    intro nbytes hpos
    have hlt : nbytes.toInt.toNat < 2 ^ 31 := by
      have := nbytes.toInt_lt
      omega
    have hle : got.length ≤ (img.fileBytes d.inodeNum).length := by omega
    have hnext : next nbytes = readDataFile img k.1 k.2 i nbytes.toInt.toNat := readFunc_fileFd hfd hpos
    obtain ⟨hbytes, -⟩ := readDataFile_fileFd (s := k.2) hdel hfd hle hlt
    have hret : (next nbytes).ret = (next nbytes).bytes.length := by
      rw [hnext, hbytes, readDataFile_ret, hfd, fileFd, readData_eq_readOut hn (hs _ hn) hle hlt, readOut]
    refine ⟨by rw [hnext, hbytes], hret, ?_⟩
    rw [hret, hnext, hbytes, List.length_take, List.length_drop]
    constructor
    · intro hz
      rw [hgot, List.take_of_length_le (by omega)]
    · intro hall
      rw [hall]
      omega
  · intro hn
    have hdel := delivers_nothing hn
    obtain ⟨hgot, hfin⟩ := run_fileFd hdel hopen (Nat.zero_le _) hc hr
    refine ⟨by simpa using hgot, ?_⟩
    intro nbytes hpos
    have hnext : next nbytes = readDataFile img k.1 k.2 i nbytes.toInt.toNat := readFunc_fileFd hfin hpos
    rw [hnext]
    unfold readDataFile
    rw [hfin]
    simp [fileFd, readData_of_le _ _ hn]

open FileDescAux in
/-- The root shell after opening its own file as descriptor 2. -/
def openedShell : CallOut Unit :=
  { ret := 2, bytes := [], pcb := opened rootShellPCB.initFds 2 (shellImage.dentry 0).copy, dev := () }

/-- A read of three bytes, then one of ten: the second delivers the two bytes that are left. -/
theorem readFunc_delivers_file_in_order_openedShell :
    bytesRead shellImage quietDevices 2 (openedShell.pcb, ()) [.read 2 true 3] = [0x7F, 0x45, 0x4C] ∧
      (readFunc shellImage quietDevices ()
        ((callStep shellImage quietDevices (openedShell.pcb, ()) (.read 2 true 3)).state.1) 2 true 10).bytes = [0x46, 7] := by
  have hfile : shellImage.fileBytes (shellImage.dentry 0).copy.inodeNum = [0x7F, 0x45, 0x4C, 0x46, 7] := by decide
  have hsound : ∀ n < shellImage.fsStats 1, shellImage.SoundInode n := by
    intro n hn
    have hone : shellImage.fsStats 1 = 1 := by decide
    rw [show n = 0 by omega]
    exact soundInode_shellImage
  have hd : readDentryByName shellImage (cstr (ascii "shell")) = some (shellImage.dentry 0).copy := rfl
  have ho : openFunc shellImage quietDevices () rootShellPCB.initFds (cstr (ascii "shell")) = some openedShell := rfl
  have hi : openedShell.ret = (2 : Fin 8).val := rfl
  have hc : ∀ c ∈ [Call.read 2 true 3], c ≠ .close (2 : Fin 8).val := by simp
  have hr : run (callStep shellImage quietDevices) (openedShell.pcb, openedShell.dev) [.read 2 true 3] =
      .ok (callStep shellImage quietDevices (openedShell.pcb, ()) (.read 2 true 3)).state := rfl
  have h := (readFunc_delivers_file_in_order hsound quietDevices hd (by decide) ho hi hc hr).1 (by decide)
  obtain ⟨hgot, -, hnext⟩ := h
  have hgot' : bytesRead shellImage quietDevices 2 (openedShell.pcb, ()) [.read 2 true 3] = [0x7F, 0x45, 0x4C] := by
    rw [hfile] at hgot
    exact hgot
  refine ⟨hgot', ?_⟩
  rw [hfile] at hnext
  obtain ⟨hbytes, -, -⟩ := hnext 10 (by decide)
  rw [show bytesRead shellImage quietDevices 2 (openedShell.pcb, openedShell.dev) [.read 2 true 3] = [0x7F, 0x45, 0x4C] from
    hgot'] at hbytes
  exact hbytes

end ThreeTermOS
