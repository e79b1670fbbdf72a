import ThreeTermOS.Kernel
import ThreeTermOS.Lemmas.FileDesc
import ThreeTermOS.Lemmas.FileSys
import ThreeTermOS.Syscalls

/-!
# What a call stores in a program's buffer

Three of the four reads keep within the buffer whatever they read. A directory read copies the whole name of the entry and
`getargs_func` the whole argument string, without a look at the number of bytes the program has room for.
-/

namespace ThreeTermOS

open Bytes

/-- The call stores no byte beyond the room of the buffer, and returns no larger number. -/
def CallOut.Within {σ : Type} (out : CallOut σ) (room : Nat) : Prop := out.bytes.length ≤ room ∧ out.ret ≤ room

/-- The call of `getargs_func` stores no byte beyond the room of the buffer, and fails when the string of the process does not
fit with its terminator. -/
def ArgsWithin (p : PCB) (out : Int × List UInt8) (room : Nat) : Prop :=
  out.2.length ≤ room ∧ (room < strlen (cstr p.args) + 1 → out.1 = -1)

/-- If the read is one of a directory and finds an entry, the name of the entry fits with its terminator. -/
def EntryFits (img : Image) (p : PCB) (fd : Int) (buf : Bool) (nbytes : Int32) : Prop :=
  ∀ i d, fdIndex fd = some i → (p.fdA i).fopsPtr = some .dir → (p.fdA i).flags ≠ inUse → buf = true → 0 < nbytes.toInt →
    readDentryByIndex img (p.fdA i).pos = some d → strlen d.filename + 1 ≤ nbytes.toInt.toNat

/-- If there is a buffer, the arguments of the process fit with their terminator. -/
def ArgsFit (p : PCB) (buf : Bool) (nbytes : Int32) : Prop := buf = true → strlen (cstr p.args) + 1 ≤ nbytes.toInt.toNat

namespace UserBuffersAux

variable {σ : Type} {img : Image} {p : PCB} {s : DeviceState} {i : Fin 8} {room : Nat}

theorem within_fail (s : σ) : (CallOut.fail p s).Within room :=
  ⟨Nat.zero_le _, Int.le_trans (by decide : (-1 : Int) ≤ 0) (Int.natCast_nonneg room)⟩

/-- The line `terminal_read` copies is cut to the number of bytes asked for. -/
theorem terminalReadLoop_length_le (k : Console) : ∀ n i, (terminalReadLoop k n i).length ≤ n := by
  intro n
  induction n with
  | zero =>
    intro i
    exact Nat.le_refl 0
  | succ n ih =>
    intro i
    rw [terminalReadLoop]
    split
    · exact Nat.succ_le_succ (ih (i + 1))
    · exact Nat.zero_le _

theorem terminalRead_within {nbytes : Int32} (h : 0 < nbytes.toInt) :
    (terminalRead s nbytes).2.1.length ≤ nbytes.toInt.toNat ∧ (terminalRead s nbytes).1 ≤ nbytes.toInt.toNat := by
  have hlen := terminalReadLoop_length_le (s.awaitEnter (terminalReadBegin s.console)) nbytes.toInt.toNat 0
  rw [terminalRead, if_neg (by omega), if_neg (by omega)]
  exact ⟨hlen, Int.ofNat_le.mpr hlen⟩

theorem readDataFile_within (s : σ) : (readDataFile img p s i room).Within room := by
  have hle := readData_le img (p.fdA i).inodeNum (p.fdA i).pos room
  unfold readDataFile
  dsimp only
  split
  · exact hle
  · exact hle

/-- A directory read stores the name and its terminator: it keeps within the room exactly when these fit. -/
theorem readDir_within_iff (s : σ) :
    (readDir img p s i).Within room ↔
      ∀ d, readDentryByIndex img (p.fdA i).pos = some d → strlen d.filename + 1 ≤ room := by
  unfold readDir CallOut.Within
  cases hd : readDentryByIndex img (p.fdA i).pos with
  | none =>
    refine iff_of_true ⟨Nat.zero_le _, Int.natCast_nonneg _⟩ ?_
    intro d h
    cases h
  | some d =>
    have hlen : (strcpyBytes d.filename).length = strlen d.filename := slice_length _ _ _
    dsimp only
    rw [List.length_append, hlen]
    constructor
    · rintro ⟨h, -⟩ d' hd'
      obtain rfl := Option.some.inj hd'
      exact h
    · intro h
      have hfit := h d rfl
      exact ⟨hfit, by omega⟩

/-- One dispatch, four implementations: only the directory read can leave the buffer. -/
theorem readFunc_within_iff (fd : Int) (buf : Bool) (nbytes : Int32) :
    (readFunc img kernelDevices s p fd buf nbytes).Within nbytes.toInt.toNat ↔ EntryFits img p fd buf nbytes := by
  unfold readFunc EntryFits
  cases hfd : fdIndex fd with
  | none =>
    refine iff_of_true (within_fail s) ?_
    intro i d h
    cases h
  | some i =>
    dsimp only
    cases hops : (p.fdA i).fopsPtr with
    | none =>
      refine iff_of_true (within_fail s) ?_
      rintro i' d ⟨rfl⟩ h
      rw [hops] at h
      cases h
    | some fops =>
      dsimp only
      by_cases hbad : nbytes.toInt ≤ 0 ∨ buf = false ∨ (p.fdA i).flags = inUse
      · rw [if_pos hbad]
        refine iff_of_true (within_fail s) ?_
        rintro i' d ⟨rfl⟩ - hflags hbuf hpos
        rcases hbad with h | h | h
        · omega
        · exact absurd hbuf (by rw [h]; decide)
        · exact absurd h hflags
      · rw [if_neg hbad]
        obtain ⟨hn, hb, hf⟩ := not_or.mp hbad |>.imp_right not_or.mp
        -- a table other than that of directories leaves nothing to ask
        have hother : fops ≠ .dir → ∀ i' d, some i = some i' → (p.fdA i').fopsPtr = some .dir → (p.fdA i').flags ≠ inUse →
            buf = true → 0 < nbytes.toInt → readDentryByIndex img (p.fdA i').pos = some d →
            strlen d.filename + 1 ≤ nbytes.toInt.toNat := by
          rintro hne i' d ⟨rfl⟩ h
          rw [hops, Option.some.injEq] at h
          exact absurd h hne
        cases fops with
        | stdin => exact iff_of_true (terminalRead_within (by omega)) (hother (by decide))
        | stdout => exact iff_of_true (within_fail s) (hother (by decide))
        | rtc => exact iff_of_true ⟨Nat.zero_le _, Int.natCast_nonneg _⟩ (hother (by decide))
        | file => exact iff_of_true (readDataFile_within s) (hother (by decide))
        | dir =>
          refine (readDir_within_iff s).trans ?_
          constructor
          · rintro h i' d ⟨rfl⟩ - - - - hd
            exact h d hd
          · intro h d hd
            exact h i d rfl hops hf (by simpa using hb) (by omega) hd

/-- `getargs_func` stores the whole string. -/
theorem getargsFunc_within_iff (p : PCB) (buf : Bool) (nbytes : Int32) :
    ArgsWithin p (getargsFunc p buf nbytes) nbytes.toInt.toNat ↔ ArgsFit p buf nbytes := by
  have hlen : (strcpyBytes (cstr p.args) ++ [0]).length = strlen (cstr p.args) + 1 := by
    rw [List.length_append, strcpyBytes, slice_length]
    rfl
  unfold ArgsWithin ArgsFit getargsFunc
  cases buf with
  | false => exact iff_of_true ⟨Nat.zero_le _, fun _ => rfl⟩ (fun h => Bool.noConfusion h)
  | true =>
    rw [if_neg (by decide), hlen]
    exact ⟨fun h _ => h.1, fun h => ⟨h rfl, fun hlt => absurd (h rfl) (by omega)⟩⟩

end UserBuffersAux

open UserBuffersAux

/-- Exactly when a call keeps within the buffer of the program: a read, whatever it reads, does unless it lists a directory entry
whose name does not fit; `getargs_func` does unless the arguments do not fit. -/
theorem buffers_kept_iff (img : Image) (s : DeviceState) (p : PCB) (fd : Int) (buf : Bool) (nbytes : Int32) :
    ((readFunc img kernelDevices s p fd buf nbytes).Within nbytes.toInt.toNat ↔ EntryFits img p fd buf nbytes) ∧
      (ArgsWithin p (getargsFunc p buf nbytes) nbytes.toInt.toNat ↔ ArgsFit p buf nbytes) :=
  ⟨readFunc_within_iff fd buf nbytes, getargsFunc_within_iff p buf nbytes⟩

/-- A directory of two entries, itself and a file with a name of nine characters. -/
def catalogueImage : Image :=
  Image.ofParts [(0, [2]), (64, ascii "."), (96, [1]), (128, ascii "catalogue"), (160, [2])]

/-- The devices as the kernel leaves them at the start, where nothing happens while a call waits. -/
def devicesAtStart : DeviceState :=
  { console := (boot (fun _ => 0) (fun _ => rootShellPCB)).toConsole, rtc := Rtc.init, awaitEnter := id, awaitRtc := id }

/-- The process control block of the first shell, as `PCB_init` leaves it, with a string of arguments. -/
def shellWithArgs (args : List UInt8) : PCB := { rootShellPCB with fdA := fdAInit, args := args, fdTotalOpen := 1 }

/-- A shell opens the directory and reads it with a buffer of four bytes: ten are stored. Its arguments, of eight characters,
overrun such a buffer as well, and `getargs_func` returns 0. -/
theorem directory_read_overruns :
    ((openFunc catalogueImage kernelDevices devicesAtStart (shellWithArgs []) (cstr (ascii "."))).map (fun out =>
      (out.ret, (readFunc catalogueImage kernelDevices out.dev out.pcb 2 true 4).bytes))) =
        some (2, ascii "catalogue" ++ [0]) ∧
      getargsFunc (shellWithArgs (ascii "file.txt")) true 4 = (0, ascii "file.txt" ++ [0]) ∧
      ¬(∀ (img : Image) (s : DeviceState) (p : PCB) (fd : Int) (nbytes : Int32), 0 < nbytes.toInt →
        (readFunc img kernelDevices s p fd true nbytes).Within nbytes.toInt.toNat ∧
          ArgsWithin p (getargsFunc p true nbytes) nbytes.toInt.toNat) := by
  refine ⟨by decide +kernel, by decide +kernel, ?_⟩
  intro h
  have hargs := (h catalogueImage devicesAtStart (shellWithArgs (ascii "file.txt")) 2 4 (by decide)).2.1
  exact absurd hargs (by decide +kernel)

end ThreeTermOS
