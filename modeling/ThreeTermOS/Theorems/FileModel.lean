import ThreeTermOS.Lemmas.Volume

/-!
# The file system calls refine a volume

A program cannot tell its file system calls from calls on a volume that knows names and contents only: not by what they return, not by
what they store, not by what they do to the terminal and the clock, and in no order of calls.
-/

namespace ThreeTermOS

open Runs

open VolumeAux FileDescAux in
/-- On a well-formed image, whatever calls a process makes after `PCB_init`, with whatever arguments: every call has an outcome, the
calls tell the program what the same calls on the volume tell it, the devices end in the same state, and what the descriptors have
left to read is what the volume's have. -/
theorem file_calls_refine {σ : Type} {img : Image} (h : img.WellFormed) (dev : Devices σ) (p : PCB) (s : σ) (calls : List Call) :
    ∃ p' s', run (callStep img dev) (p.initFds, s) calls = .ok (p', s') ∧
      run (img.volume.callStep dev) (Handles.start, s) calls = .ok (img.handles p', s') ∧
      collect (callStep img dev) (replies img dev) (p.initFds, s) calls =
        collect (img.volume.callStep dev) (img.volume.replies dev) (Handles.start, s) calls := by
  have hstep : ∀ (k : PCB × σ) (c : Call), img.ProcessOk k.1 → ∃ k', callStep img dev k c = .ok k' ∧ img.ProcessOk k'.1 ∧
      img.volume.callStep dev (img.handles k.1, k.2) c = .ok (img.handles k'.1, k'.2) ∧
      replies img dev k c = img.volume.replies dev (img.handles k.1, k.2) c := by
    intro k c hk
    obtain ⟨out, ho, hok, hcall⟩ := call_volume dev k.2 h hk c
    refine ⟨(out.pcb, out.dev), ?_, hok, ?_, ?_⟩
    · unfold callStep
      rw [ho]
    · unfold Volume.callStep
      rw [hcall]
    · unfold replies Volume.replies
      rw [ho, hcall]
  have hstart : img.ProcessOk ((p.initFds, s) : PCB × σ).1 := processOk_initFds p
  obtain ⟨k', hrun, -, hrun', hout⟩ := run_matched (f := fun k : PCB × σ => (img.handles k.1, k.2)) hstep calls hstart
  rw [handles_initFds] at hrun' hout
  exact ⟨k'.1, k'.2, hrun, hrun', hout⟩

/-- The image of one shell is well-formed. -/
theorem wellFormed_shellImage : shellImage.WellFormed := by
  have htypes : ∀ i < shellImage.fsStats 0, (shellImage.dentry i).fileType ≤ 2 := by decide
  refine ⟨htypes, by decide +kernel, fun n hn => ?_, by decide⟩
  have hone : shellImage.fsStats 1 = 1 := by decide
  rw [show n = 0 by omega]
  exact soundInode_shellImage

/-- The file of the shell opened, read in two pieces and to its end, and closed. -/
def readShell : List Call := [.open (cstr (ascii "shell")), .read 2 true 3, .read 2 true 10, .read 2 true 10, .close 2, .read 2 true 1]

/-- What reading the file of the shell tells. -/
theorem file_calls_refine_readShell : collect (callStep shellImage quietDevices) (replies shellImage quietDevices)
    (rootShellPCB.initFds, ()) readShell = [{ ret := 2, bytes := [] }, { ret := 3, bytes := [0x7F, 0x45, 0x4C] },
      { ret := 2, bytes := [0x46, 7] }, { ret := 0, bytes := [] }, { ret := 0, bytes := [] }, { ret := -1, bytes := [] }] := by
  obtain ⟨-, -, -, -, hout⟩ := file_calls_refine wellFormed_shellImage quietDevices rootShellPCB () readShell
  rw [hout]
  decide +kernel

end ThreeTermOS
