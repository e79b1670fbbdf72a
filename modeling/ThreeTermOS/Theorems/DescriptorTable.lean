import ThreeTermOS.Lemmas.FileDesc
import ThreeTermOS.Lemmas.FileSys
import ThreeTermOS.ReadBuffers

/-!
# The descriptor table is an allocator

Along every sequence of calls since `PCB_init`, `open_func` hands out the lowest closed descriptor of 2 to 7 and refuses only
when there is none or no such name, `close_func` frees exactly the open descriptor it names, and no call touches a descriptor
it does not name. All this is so while no read is handed on with a buffer in the kernel: `vidmap_func` looks whether its pointer lies
in the program's page, `read_func` only whether its own is null.
-/

namespace ThreeTermOS

open Runs SlotTable

variable {σ : Type}

/-- `open_func` allocates: it returns the lowest closed descriptor, with the table of the entry's type and a fresh position,
exactly when the name is found and a descriptor is closed, and otherwise fails and leaves the process as it was. -/
def OpenAllocates (img : Image) (dev : Devices σ) (s : σ) (p : PCB) (fname : CPtr) : Prop :=
  ∃ out, openFunc img dev s p fname = some out ∧
    ((∃ d i, readDentryByName img fname = some d ∧ IsLowestFree userSlots p.table i ∧ out.ret = i.val ∧
        (out.pcb.fdA i).fopsPtr = fopsOfType d.fileType ∧ (out.pcb.fdA i).fopsPtr ≠ none ∧
        (out.pcb.fdA i).pos = startPos d.fileType ∧ out.pcb.fdTotalOpen = p.fdTotalOpen + 1 ∧
        ∀ j ≠ i, out.pcb.fdA j = p.fdA j) ∨
      ((readDentryByName img fname = none ∨ ∀ i, ¬IsLowestFree userSlots p.table i) ∧ out.ret = -1 ∧ out.pcb = p))

/-- `close_func` releases: it returns 0 exactly on an open descriptor of 2 to 7, and then frees only that one; otherwise it
returns -1 and leaves the process as it was. -/
def CloseReleases (dev : Devices σ) (s : σ) (p : PCB) (fd : Nat) : Prop :=
  let out := closeFunc dev s p fd
  (∃ i ∈ userSlots, i.val = fd ∧ p.table i ≠ none ∧ out.ret = 0 ∧ out.pcb.table = Function.update p.table i none ∧
      (∀ j ≠ i, out.pcb.fdA j = p.fdA j) ∧ out.pcb.fdTotalOpen + 1 = p.fdTotalOpen) ∨
    ((∀ i ∈ userSlots, i.val = fd → p.table i = none) ∧ out.ret = -1 ∧ out.pcb = p)

/-- `read_func` hands the read on to a function that stores into the buffer. -/
def PCB.ReadsInto (p : PCB) (fd : Int) (buf : Nat) (nbytes : Int32) : Prop :=
  ∃ i fops f, fdIndex fd = some i ∧ (p.fdA i).fopsPtr = some fops ∧ fops.read = some f ∧ f ≠ .invalidFunc ∧ f ≠ .rtcRead ∧
    0 < nbytes.toInt ∧ buf ≠ 0 ∧ (p.fdA i).flags ≠ inUse

/-- No read is handed on with a buffer below 128MB, where the program's pages begin. -/
def BufferCall.OutsideKernel (p : PCB) : BufferCall → Prop
  | .read fd buf nbytes => p.ReadsInto fd buf nbytes → mb128 ≤ buf
  | _ => True

namespace DescriptorTableAux

open FileDescAux

variable {img : Image} {dev : Devices σ} {s : σ} {p : PCB} {a : Addr} {v buf : Nat}

/-! ### Reads into the pages of the program -/

/-- What is stored in the pages of a program leaves its block as it was. -/
theorem storeAll_outside (h : mb128 ≤ v) {bs : List UInt8} {q : PCB} (hq : p.storeAll a v bs = some q) : q = p := by
  induction bs generalizing v with
  | nil =>
    rw [PCB.storeAll, Option.some.injEq] at hq
    exact hq.symm
  | cons b bs ih =>
    rw [PCB.storeAll, PCB.store, if_pos h] at hq
    split at hq
    · exact ih (Nat.le_succ_of_le h) hq
    · cases hq

theorem storeAll_program (h : mb128 ≤ v) {bs : List UInt8} (hend : v + bs.length ≤ programEnd) :
    p.storeAll a v bs = some p := by
  induction bs generalizing v with
  | nil => rfl
  | cons b bs ih =>
    rw [List.length_cons] at hend
    rw [PCB.storeAll, PCB.store, if_pos h, if_pos (by omega)]
    exact ih (Nat.le_succ_of_le h) (by omega)

/-- A read stores nothing, or what the read of a buffer of the caller's own stores; where that leaves the block as it was, the rest is
the same. -/
theorem readFuncAt_cases (img : Image) (dev : Devices σ) (s : σ) (a : Addr) (p : PCB) (fd : Int) (buf : Nat) (nbytes : Int32) :
    readFuncAt img dev s a p fd buf nbytes = some (readFunc img dev s p fd (decide (buf ≠ 0)) nbytes) ∨
      p.ReadsInto fd buf nbytes ∧ ∃ (q : PCB) (f : PCB → CallOut σ),
        readFuncAt img dev s a p fd buf nbytes =
          (q.storeAll a buf (readFunc img dev s p fd (decide (buf ≠ 0)) nbytes).bytes).map f ∧
        f q = readFunc img dev s p fd (decide (buf ≠ 0)) nbytes := by
  unfold readFuncAt readFunc
  cases hi : fdIndex fd with
  | none => exact Or.inl rfl
  | some i =>
    dsimp only
    cases hf : (p.fdA i).fopsPtr with
    | none => exact Or.inl rfl
    | some fops =>
      dsimp only
      by_cases hrefused : nbytes.toInt ≤ 0 ∨ buf = 0 ∨ (p.fdA i).flags = inUse
      · rw [if_pos hrefused, if_pos (by simpa using hrefused)]
        exact Or.inl rfl
      · have hon : ∀ f, fops.read = some f → f ≠ .invalidFunc → f ≠ .rtcRead → p.ReadsInto fd buf nbytes := by
          intro f hread hvalid hrtc
          push Not at hrefused
          exact ⟨i, fops, f, hi, hf, hread, hvalid, hrtc, hrefused.1, hrefused.2.1, hrefused.2.2⟩
        rw [if_neg hrefused, if_neg (by simpa using hrefused)]
        cases fops with
        | stdin => exact Or.inr ⟨hon _ rfl (by decide) (by decide), p, _, rfl, rfl⟩
        | stdout => exact Or.inl rfl
        | rtc => exact Or.inl rfl
        | dir =>
          simp only [Fops.read, readDirAt, readDir]
          cases readDentryByIndex img (p.fdA i).pos with
          | none => exact Or.inl rfl
          | some d => exact Or.inr ⟨hon _ rfl (by decide) (by decide), _, _, rfl, rfl⟩
        | file =>
          simp only [Fops.read, readDataFileAt, readDataFile]
          by_cases hret : (readData img (p.fdA i).inodeNum (p.fdA i).pos nbytes.toInt.toNat).ret ≤ 0
          · simp only [if_pos hret]
            exact Or.inr ⟨hon _ rfl (by decide) (by decide), p, _, rfl, rfl⟩
          · simp only [if_neg hret]
            exact Or.inr ⟨hon _ rfl (by decide) (by decide), p, _, rfl, rfl⟩

/-- What a read hands on into the pages of the program is the read of a buffer of the caller's own. -/
theorem readFuncAt_outside {fd : Int} {nbytes : Int32} (h : (BufferCall.read fd buf nbytes).OutsideKernel p) {out : CallOut σ}
    (ho : readFuncAt img dev s a p fd buf nbytes = some out) : out = readFunc img dev s p fd (decide (buf ≠ 0)) nbytes := by
  rcases readFuncAt_cases img dev s a p fd buf nbytes with he | ⟨hon, q, f, he, hf⟩
  · rw [he, Option.some.injEq] at ho
    exact ho.symm
  · rw [he, Option.map_eq_some_iff] at ho
    obtain ⟨q', hq, rfl⟩ := ho
    rw [storeAll_outside (h hon) hq, hf]

/-- It has an outcome when it ends within those pages. -/
theorem readFuncAt_program {fd : Int} {nbytes : Int32} (h : (BufferCall.read fd buf nbytes).OutsideKernel p)
    (hend : p.ReadsInto fd buf nbytes →
      buf + (readFunc img dev s p fd (decide (buf ≠ 0)) nbytes).bytes.length ≤ programEnd) :
    readFuncAt img dev s a p fd buf nbytes = some (readFunc img dev s p fd (decide (buf ≠ 0)) nbytes) := by
  rcases readFuncAt_cases img dev s a p fd buf nbytes with he | ⟨hon, q, f, he, hf⟩
  · exact he
  · rw [he, storeAll_program (h hon) (hend hon), Option.map_some, hf]

theorem openAllocates_of_tableOk (dev : Devices σ) (s : σ) (hk : KnownTypes img) (h : TableOk p) (fname : CPtr) :
    OpenAllocates img dev s p fname := by
  by_cases hfull : 7 ≤ p.fdTotalOpen
  · refine ⟨_, openFunc_of_full hfull, Or.inr ⟨Or.inr ?_, rfl, rfl⟩⟩
    exact not_isLowestFree h hfull
  · have hlt : p.fdTotalOpen < 7 := by omega
    cases hd : readDentryByName img fname with
    | none => exact ⟨_, openFunc_of_not_found hlt hd, Or.inr ⟨Or.inl hd, rfl, rfl⟩⟩
    | some d =>
      obtain ⟨i, hi⟩ := exists_findClosed h hlt
      have ht := fileType_of_readDentryByName hk hd
      obtain ⟨s', hs'⟩ := openFunc_of_found dev s hlt hd hi ht
      obtain ⟨hptr, hpos, -⟩ := openedFd_fopsPtr (p.fdA i) ht
      refine ⟨_, hs', Or.inl ⟨d, i, hd, findClosed_eq_some.mp hi, rfl, ?_, ?_, ?_, rfl, ?_⟩⟩
      · rw [opened_fdA_self, hptr]
      · rw [opened_fdA_self, hptr]
        rcases ht with ht | ht | ht <;> simp [ht, fopsOfType]
      · rw [opened_fdA_self, hpos]
      · intro j hj
        exact opened_fdA_other d hj

theorem closeReleases_of_tableOk (h : TableOk p) (fd : Nat) : CloseReleases dev s p fd := by
  unfold CloseReleases
  rcases closeFunc_cases dev s h fd with ⟨i, hi, hge, ho, hc⟩ | ⟨hno, hc⟩
  · left
    refine ⟨i, (mem_userSlots i).mpr (hi ▸ hge), hi, ?_, ?_, ?_, ?_, ?_⟩
    · rw [Ne, table_eq_none]
      exact ho
    · rw [hc]
    · rw [hc]
      exact table_closed p i
    · intro j hj
      rw [hc]
      exact closed_fdA_other hj
    · rw [hc]
      have := h.total
      simp only [closed]
      omega
  · right
    refine ⟨?_, ?_, ?_⟩
    · intro i hi hfd
      by_contra hne
      refine hno ⟨i, hfd, ?_, fun hnone => hne ((table_eq_none p i).mpr hnone)⟩
      exact hfd ▸ (mem_userSlots i).mp hi
    · rw [hc]
      rfl
    · rw [hc]
      rfl

/-- A call that is read into nothing of the kernel keeps the table right. -/
theorem tableOk_bufferStep (hk : KnownTypes img) {k k' : PCB × σ} {c : BufferCall} (h : TableOk k.1) (hc : c.OutsideKernel k.1)
    (hs : bufferStep img dev a k c = .ok k') : TableOk k'.1 := by
  unfold bufferStep at hs
  split at hs
  · cases hs
  · rename_i out ho
    rw [Outcome.ok.injEq] at hs
    subst hs
    cases c with
    | «open» fname => exact tableOk_call hk h (c := .open fname) ho
    | close fd => exact tableOk_call hk h (c := .close fd) ho
    | write fd buf nbytes => exact tableOk_call hk h (c := .write fd buf nbytes) ho
    | read fd buf nbytes =>
      rw [readFuncAt_outside hc ho]
      exact tableOk_readFunc h fd _ nbytes

end DescriptorTableAux

open FileDescAux DescriptorTableAux in
/-- The descriptor table of a process is an allocator along every sequence of calls since `PCB_init` of which none is read into the
kernel: the counter counts the open descriptors, the first two keep their tables, every call has an outcome (a read into the pages of
the program), `open_func` allocates, `close_func` releases, and a read, a write or a close changes no descriptor but its own. -/
theorem descriptor_table_allocates {img : Image} (hk : KnownTypes img) (dev : Devices σ) (a : Addr) (p₀ : PCB) (s₀ : σ)
    {calls : List BufferCall} {p : PCB} {s : σ}
    (hm : Meets (bufferStep img dev a) (fun k c => c.OutsideKernel k.1) (p₀.initFds, s₀) calls)
    (hr : run (bufferStep img dev a) (p₀.initFds, s₀) calls = .ok (p, s)) :
    p.fdTotalOpen = 1 + p.openCount ∧
      (p.fdA 0).fopsPtr = some .stdin ∧ (p.fdA 1).fopsPtr = some .stdout ∧
      (∀ c : Call, (c.out img dev s p).isSome) ∧
      (∀ fname, OpenAllocates img dev s p fname) ∧
      (∀ fd, CloseReleases dev s p fd) ∧
      (∀ (fd : Nat) (j : Fin 8), j.val ≠ fd → (closeFunc dev s p fd).pcb.fdA j = p.fdA j) ∧
      (∀ (fd : Int) (buf : Nat) (nbytes : Int32), (BufferCall.read fd buf nbytes).OutsideKernel p →
        (p.ReadsInto fd buf nbytes → buf + (readFunc img dev s p fd (decide (buf ≠ 0)) nbytes).bytes.length ≤ programEnd) →
        readFuncAt img dev s a p fd buf nbytes = some (readFunc img dev s p fd (decide (buf ≠ 0)) nbytes)) ∧
      (∀ (fd : Int) (buf : Nat) (nbytes : Int32) (out : CallOut σ), (BufferCall.read fd buf nbytes).OutsideKernel p →
        readFuncAt img dev s a p fd buf nbytes = some out → ∀ j : Fin 8, (j.val : Int) ≠ fd → out.pcb.fdA j = p.fdA j) ∧
      (∀ (fd : Int) (buf : Option (List UInt8)) (nbytes : Int32), (writeFunc dev s p fd buf nbytes).pcb = p) := by
  have h : TableOk p :=
    run_invariant_of_meets (I := fun k => TableOk k.1) (fun _ _ _ h hc hs => tableOk_bufferStep hk h hc hs) (tableOk_initFds p₀) hm hr
  refine ⟨h.total, h.stdin, h.stdout, ?_, openAllocates_of_tableOk dev s hk h, closeReleases_of_tableOk h, ?_, ?_, ?_, ?_⟩
  · intro c
    cases c with
    | «open» fname =>
      obtain ⟨out, ho, -⟩ := openAllocates_of_tableOk dev s hk h fname
      rw [Call.out, ho]
      rfl
    | close fd => rfl
    | read fd buf nbytes => rfl
    | write fd buf nbytes => rfl
  · intro fd j hj
    exact closeFunc_fdA hj
  · intro fd buf nbytes hout hend
    exact readFuncAt_program hout hend
  · intro fd buf nbytes out hbuf ho j hj
    rw [readFuncAt_outside hbuf ho]
    exact readFunc_fdA _ nbytes hj
  · intro fd buf nbytes
    exact writeFunc_pcb fd buf nbytes

/-- The block of the first process. -/
def rootBlock : Addr := pidToPCBAddr 0 0

/-- The first process opens a file and reads four bytes of it into its own pages. -/
def readsIntoPage : List BufferCall := [.open (cstr (ascii "shell")), .read 2 (mb128 + 0x1000) 4]

def pageReader : Outcome Unit (PCB × Unit) := run (bufferStep shellImage quietDevices rootBlock) (rootShellPCB.initFds, ()) readsIntoPage

/-- With one file open, the counter is two and descriptor 3 is the next one handed out. -/
theorem descriptor_table_allocates_openedShell :
    pageReader.state.1.fdTotalOpen = 2 ∧ pageReader.state.1.fdTotalOpen = 1 + pageReader.state.1.openCount ∧
      OpenAllocates shellImage quietDevices () pageReader.state.1 (cstr (ascii "shell")) := by
  have hk : KnownTypes shellImage := by
    unfold KnownTypes
    decide
  have hok : pageReader.isOk = true := by decide +kernel
  have htwo : pageReader.state.1.fdTotalOpen = 2 := by decide +kernel
  have hm : Meets (bufferStep shellImage quietDevices rootBlock) (fun k c => c.OutsideKernel k.1) (rootShellPCB.initFds, ())
      readsIntoPage := ⟨trivial, fun _ _ => ⟨fun _ => by decide, fun _ _ => trivial⟩⟩
  have hr : run (bufferStep shellImage quietDevices rootBlock) (rootShellPCB.initFds, ()) readsIntoPage = .ok pageReader.state :=
    Outcome.eq_ok_of_isOk hok
  obtain ⟨hcount, -, -, -, hopen, -⟩ := descriptor_table_allocates hk quietDevices rootBlock rootShellPCB () hm hr
  exact ⟨htwo, hcount, hopen _⟩

/-- The same read into the number of the open descriptors. -/
def readsIntoBlock : List BufferCall := [.open (cstr (ascii "shell")), .read 2 (rootBlock + fdTotalOpenOffset) 4]

def blockReader : Outcome Unit (PCB × Unit) := run (bufferStep shellImage quietDevices rootBlock) (rootShellPCB.initFds, ()) readsIntoBlock

/-- The bytes of the file become the number of open descriptors, and with five descriptors closed nothing can be opened. -/
theorem read_overwrites_counter :
    rootBlock + fdTotalOpenOffset = 0x7FE128 ∧ blockReader.isOk = true ∧ blockReader.state.1.fdTotalOpen = 0x464C457F ∧
      (openFunc shellImage quietDevices () blockReader.state.1 (cstr (ascii "shell"))).map CallOut.ret = some (-1) ∧
      (blockReader.state.1.fdA 3).fopsPtr = none ∧
      ¬(∀ calls p s, run (bufferStep shellImage quietDevices rootBlock) (rootShellPCB.initFds, ()) calls = .ok (p, s) →
        p.fdTotalOpen = 1 + p.openCount ∧ ∀ fname, OpenAllocates shellImage quietDevices s p fname) := by
  have hok : blockReader.isOk = true := by decide +kernel
  have hcount : blockReader.state.1.fdTotalOpen = 0x464C457F := by decide +kernel
  have hopen : blockReader.state.1.openCount = 1 := by decide +kernel
  refine ⟨by decide +kernel, hok, hcount, by decide +kernel, by decide +kernel, fun h => ?_⟩
  have hr : run (bufferStep shellImage quietDevices rootBlock) (rootShellPCB.initFds, ()) readsIntoBlock = .ok blockReader.state :=
    Outcome.eq_ok_of_isOk hok
  generalize blockReader.state = k at hcount hopen hr
  obtain ⟨hallocated, -⟩ := h readsIntoBlock k.1 k.2 hr
  rw [hcount, hopen] at hallocated
  exact absurd hallocated (by decide)

end ThreeTermOS
