import ThreeTermOS.Lemmas.Launch
import ThreeTermOS.Lemmas.Volume
import ThreeTermOS.RtcCalls
import ThreeTermOS.Theorems.AddressSpaces
import ThreeTermOS.Theorems.FileModel

/-!
# Every process has its own files

However the processes of the three terminals are interleaved, what a process has left to read from its descriptors depends on its own
calls alone, and a read leaves the bytes that are left in its buffer and nowhere else. Calls, launches and handlers are steps as a
whole, and the buffers of reads lie in the pages of their programs.
-/

namespace ThreeTermOS

open Bytes Chain Runs

/-- The descriptors after a call. The devices do not matter to them. -/
def Volume.after (v : Volume) (h : Handles) (c : Call) : Handles := (v.call quietDevices h () c).2.1

/-- The file system call an event is. -/
def FileEvent.call : FileEvent → Option Call
  | .rtc (.open filename) => some (.open filename)
  | .rtc (.close fd) => some (.close fd)
  | .rtc (.write fd buf nbytes) => some (.write fd buf nbytes)
  | .rtc _ => none
  | .read fd buf nbytes => some (.read fd (decide (buf ≠ 0)) nbytes)

/-- The event is not the end of process `q` of terminal `t`. -/
def GoesOn (t : Term) (q : Nat) (s : RtcKernel) : FileEvent → Prop
  | .rtc (.kernel (.halt _ _)) => ¬s.kernel.Runs t q
  | _ => True

/-- The descriptors of process `q` of terminal `t`, as what they have left to read. -/
def RtcKernel.handles (img : Image) (s : RtcKernel) (t : Term) (q : Nat) : Handles := img.handles (s.kernel.pcbs (pcbAt t q))

namespace PrivateFilesAux

open ProcessAux VideoMapAux ConsoleInvAux AddressSpacesAux VolumeAux FileDescAux

variable {k k' k'' : Kernel} {s s' : RtcKernel} {img : Image} {r : Residue} {t : Term} {q : Nat} {p p' : PCB}

/-! ### Descriptors through the steps of the kernel -/

/-- Two blocks with the same descriptors. -/
structure SameFds (p p' : PCB) : Prop where
  fdA : p'.fdA = p.fdA
  total : p'.fdTotalOpen = p.fdTotalOpen

/-- From one kernel to the next, each process that is alive then has the descriptors it had, or those `PCB_init` sets up. -/
def FdsKept (k k' : Kernel) : Prop :=
  ∀ t q, q < k'.nextPId t →
    (q < k.nextPId t ∧ SameFds (k.pcbs (pcbAt t q)) (k'.pcbs (pcbAt t q))) ∨
      SameFds (k'.pcbs (pcbAt t q)).initFds (k'.pcbs (pcbAt t q))

/-- Descriptors copied from a start are those of a start. -/
theorem SameFds.start (h : SameFds p.initFds p) (hs : SameFds p p') : SameFds p'.initFds p' :=
  ⟨hs.fdA.trans h.fdA, hs.total.trans h.total⟩

/-- The descriptors stay over two changes in a row. -/
theorem FdsKept.trans (h : FdsKept k k') (h' : FdsKept k' k'') : FdsKept k k'' := by
  intro t q hq
  rcases h' t q hq with ⟨hq', hs'⟩ | hs'
  · rcases h t q hq' with ⟨hq₀, hs⟩ | hs
    · exact Or.inl ⟨hq₀, hs'.fdA.trans hs.fdA, hs'.total.trans hs.total⟩
    · exact Or.inr (hs.start hs')
  · exact Or.inr hs'

/-- A call of the running process, with its outcome. -/
theorem call_ok {c : Call} (hs : s.call img c = .ok s') : ∃ a out, s.kernel.currPcbPtr = some a ∧
    c.out img kernelDevices s.devices (s.kernel.pcbs a) = some out ∧
    s'.kernel = { s.kernel with toConsole := out.dev.console, rtcFreq := out.dev.rtc.rtcFreq, rtcCounter := out.dev.rtc.rtcCounter
      }.modifyPCB a (fun _ => out.pcb) := by
  unfold RtcKernel.call at hs
  cases hcur : s.kernel.currPcbPtr with
  | none =>
    simp only [hcur] at hs
    cases hs
  | some a =>
    simp only [hcur] at hs
    cases hout : c.out img kernelDevices s.devices (s.kernel.pcbs a) with
    | none =>
      simp only [hout] at hs
      cases hs
    | some out =>
      simp only [hout] at hs
      refine ⟨a, out, rfl, hout, ?_⟩
      rw [← Outcome.ok.inj hs]
      rfl

end PrivateFilesAux

end ThreeTermOS
