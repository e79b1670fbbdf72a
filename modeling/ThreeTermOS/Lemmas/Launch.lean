import ThreeTermOS.Lemmas.Lib
import ThreeTermOS.Lemmas.VideoMap

/-!
# Launching a shell

The kernel starts shells itself, with the command `shell`. Whether one is refused depends on the count of programs and on the
image; and since the program page is always mapped, and the video pages behind it are always present, a shell that could be
loaded once can be loaded again.
-/

namespace ThreeTermOS

open Bytes Runs

/-- `execute_func` refuses to start a shell: too many programs, or the file is not there or not executable. -/
def ShellRefused (img : Image) (k : Kernel) (r : Residue) : Prop :=
  maxProgs ≤ k.totalProgs ∨ ∃ message, checkFile img (getArgsFname shellCommand r).1 r = .error message

/-- The switch of terminals an event asks for: a call, or the keys. -/
def switchRequest (k : Kernel) : Event → Option (Nat × Residue)
  | .switchTerminals dest r => some (dest, r)
  | .key c r =>
    if (k.keys.update c).fn ≠ 0 ∧ (k.keys.update c).alt = true then some ((k.keys.update c).fn - 1, r) else none
  | _ => none

namespace LaunchAux

open ProcessAux VideoMapAux LibAux

variable {k k₀ : Kernel} {img : Image} {r : Residue}

/-! ### The file -/

theorem readDentryByName_congr {s s' : CPtr} (h : SameString s s') : readDentryByName img s' = readDentryByName img s := by
  have hmatch : ∀ i, img.nameMatches s' i = img.nameMatches s i := by
    intro i
    unfold Image.nameMatches
    simp only [strlen_congr h, strncmp_congr h]
  have hfind : ∀ n i, img.findDentry s' n i = img.findDentry s n i := by
    intro n
    induction n with
    | zero => exact fun _ => rfl
    | succ n ih =>
      intro i
      rw [Image.findDentry, Image.findDentry, hmatch, ih]
  unfold readDentryByName
  rw [hfind]

/-- The name parsed from the command, whatever the stack held. -/
theorem sameString_shell (r : Residue) : SameString (cstr (ascii "shell")) (getArgsFname shellCommand r).1 := by
  refine ⟨5, by decide, ?_⟩
  intro j hj
  have hname : ((((strcpyBytes shellCommand).dropWhile (fun c => c = 0x20)).takeWhile (fun c => !endsWord c)).take
      fileNameCharmax) = ascii "shell" := by decide
  have hlen : (ascii "shell").length = 5 := by decide
  have htext : ((((strcpyBytes shellCommand).dropWhile (fun c => c = 0x20)).drop 5).dropWhile (fun c => c = 0x20)).takeWhile
      (fun c => !(c = 0x0A || c = 0x0D)) = [] := by decide
  unfold getArgsFname
  dsimp only
  rw [hname, hlen, htext, if_neg (fun hover => absurd hover.2 (by decide))]
  rcases Nat.lt_or_eq_of_le hj with hlt | rfl
  · rw [if_pos hlt]
    rfl
  · rfl

/-- An accepted file is an entry of its name. -/
theorem entry_of_checkFile {fileName : CPtr} {d : Dentry} (h : checkFile img fileName r = .ok d) :
    readDentryByName img fileName = some d := by
  unfold checkFile at h
  split at h
  · cases h
  · rename_i d' hd
    split at h
    · cases h
    · split at h
      · cases h
      · rw [Except.ok.injEq] at h
        rw [hd, h]

/-- The checks of `execute_func` that passed: there is room, and the file was accepted. -/
theorem checkFile_of_checkExecute {fileName : CPtr} {d : Dentry} (h : checkExecute img k fileName r = .ok d) :
    k.totalProgs < maxProgs ∧ checkFile img fileName r = .ok d := by
  unfold checkExecute at h
  split at h
  · cases h
  · rename_i hlt
    exact ⟨Nat.lt_of_not_le hlt, h⟩

/-- An accepted shell is the entry of that name. -/
theorem entry_of_shell {d : Dentry} (h : checkExecute img k (getArgsFname shellCommand r).1 r = .ok d) :
    readDentryByName img (cstr (ascii "shell")) = some d :=
  (readDentryByName_congr (sameString_shell r)).symm.trans (entry_of_checkFile (checkFile_of_checkExecute h).2)

/-! ### The load -/

/-- The virtual addresses a load can store to: the program page, and the three video pages behind it. -/
def Mappable (v : Nat) : Prop := v / mem4MB = pdEntryProg ∨ v / mem4MB = vmVideoIdx ∧ v % mem4MB / hex4KB < 3

theorem translate_mapProgPage (h : VideoMapped k) (v : Nat) : ((mapProgPage k).translate v).isSome = true ↔ Mappable v := by
  unfold Mappable Kernel.translate mapProgPage progEntry pagesize4MBProg
  dsimp only
  by_cases hp : v / mem4MB = pdEntryProg
  · rw [if_pos hp]
    exact ⟨fun _ => Or.inl hp, fun _ => by simp⟩
  · rw [if_neg hp]
    by_cases hv : v / mem4MB = vmVideoIdx
    · rw [if_pos hv]
      by_cases hi : v % mem4MB / hex4KB < 3
      · have hflags := h.flags ⟨_, hi⟩
        dsimp only at hflags
        rw [hflags]
        exact ⟨fun _ => Or.inr ⟨hv, hi⟩, fun _ => by simp⟩
      · rw [h.outside _ (Nat.le_of_not_lt hi)]
        simp [hp, hi]
    · rw [if_neg hv]
      simp [hp, hv]

/-- Stores go through when every address is mapped. -/
theorem storeBytes_isOk_iff (bs : List UInt8) : ∀ (k : Kernel) (v : Nat),
    (storeBytes k v bs).isOk = true ↔ ∀ i < bs.length, (k.translate (v + i)).isSome = true := by
  induction bs with
  | nil => exact fun k v => ⟨fun _ i hi => absurd hi (Nat.not_lt_zero i), fun _ => rfl⟩
  | cons b bs ih =>
    intro k v
    rw [storeBytes]
    cases ha : k.translate v with
    | none =>
      refine ⟨(fun h => by cases h), fun h => ?_⟩
      have h0 := h 0 (Nat.zero_lt_succ _)
      rw [Nat.add_zero, ha] at h0
      cases h0
    | some a =>
      simp only
      rw [ih]
      constructor
      · intro h i hi
        cases i with
        | zero => rw [Nat.add_zero, ha]; rfl
        | succ i =>
          have hi' := h i (Nat.lt_of_succ_lt_succ hi)
          rwa [Nat.add_right_comm] at hi'
      · intro h i hi
        have hi' := h (i + 1) (Nat.succ_lt_succ hi)
        rwa [← Nat.add_assoc, Nat.add_right_comm] at hi'

theorem load_isOk_iff (h : VideoMapped k) (bs : List UInt8) :
    (storeBytes (mapProgPage k) loadAddr bs).isOk = true ↔ ∀ i < bs.length, Mappable (loadAddr + i) := by
  rw [storeBytes_isOk_iff]
  constructor
  · intro hall i hi
    exact (translate_mapProgPage h _).mp (hall i hi)
  · intro hall i hi
    exact (translate_mapProgPage h _).mpr (hall i hi)

/-- The shell that was started first can be loaded. -/
theorem load_of_firstShell (h₀ : FirstShell img k₀) {d : Dentry} (hd : readDentryByName img (cstr (ascii "shell")) = some d) :
    ∀ i < (loadBytes img d).length, Mappable (loadAddr + i) := by
  obtain ⟨m, p, r, he⟩ := h₀
  rw [← load_isOk_iff (videoInv_boot m p).mapped]
  unfold executeFunc at he
  dsimp only at he
  split at he
  · cases he
  · rename_i d' hc
    have hentry := entry_of_shell hc
    rw [hd, Option.some.injEq] at hentry
    subst hentry
    split at he
    · cases he
    · rename_i hs
      rw [hs]
      rfl

/-! ### The launch -/

theorem executeShell_refused (h : ShellRefused img k r) : ∃ message, executeFunc img k shellCommand r = .refused (k.print message) := by
  have hcheck : ∃ message, checkExecute img k (getArgsFname shellCommand r).1 r = .error message := by
    unfold checkExecute
    by_cases hfull : k.totalProgs ≥ maxProgs
    · exact ⟨_, if_pos hfull⟩
    · rw [if_neg hfull]
      rcases h with hle | hfile
      · exact absurd hle hfull
      · exact hfile
  obtain ⟨message, hm⟩ := hcheck
  refine ⟨message, ?_⟩
  unfold executeFunc
  simp only [hm]

/-- A shell that is not refused is started. -/
theorem executeShell_started (h₀ : FirstShell img k₀) (hv : VideoMapped k) (h : ¬ShellRefused img k r) :
    ∃ k', executeFunc img k shellCommand r = .started k' := by
  unfold ShellRefused at h
  push Not at h
  obtain ⟨hroom, hfile⟩ := h
  cases hc : checkFile img (getArgsFname shellCommand r).1 r with
  | error message => exact absurd hc (hfile message)
  | ok d =>
    have hcheck : checkExecute img k (getArgsFname shellCommand r).1 r = .ok d := by
      unfold checkExecute
      rw [if_neg (Nat.not_le_of_lt hroom), hc]
    have hok := (load_isOk_iff hv _).mpr (load_of_firstShell h₀ (entry_of_shell hcheck))
    cases hs : storeBytes (mapProgPage k) loadAddr (loadBytes img d) with
    | stop reason k₁ =>
      rw [hs] at hok
      cases hok
    | ok k₁ =>
      unfold executeFunc
      simp only [hcheck, hs]
      exact ⟨_, rfl⟩

end LaunchAux

end ThreeTermOS
