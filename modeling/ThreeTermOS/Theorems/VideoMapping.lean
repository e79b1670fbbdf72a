import ThreeTermOS.Lemmas.VideoMap

/-!
# Virtualised video

Whatever a program draws through the address `vidmap_func` gave it goes to the logical screen of its own terminal. The three
pages sit in one table, which every program sees: the address given to another terminal's program is open to it as well.
-/

namespace ThreeTermOS

open Bytes Runs

/-- A program has been started on the terminal. -/
def Kernel.Started (k : Kernel) (t : Term) : Prop := k.activeProgs t ≠ none

/-- The pages of the terminals that have been started: each maps the logical screen of its terminal, open to user programs; the
address given out for a terminal translates to it; a store through that address in the background leaves the video memory
alone; and no two terminals share a frame. -/
structure VideoVirtualised (k : Kernel) : Prop where
  mapped : ∀ t, k.Started t → k.videoTable t.val = { base := k.screenBase t, flags := 0x7 }
  translated : ∀ t, k.Started t → ∀ off < hex4KB, k.translate (vidmapAddr t + off) = some (k.screenBase t + off)
  hidden : ∀ t, k.Started t → t ≠ k.dispTerm → ∀ off < hex4KB, ∀ b, ∃ m, storeBytes k (vidmapAddr t + off) [b] = .ok { k with mem := m } ∧
    ∀ x, video ≤ x → x < video + hex4KB → m x = k.mem x
  apart : ∀ t t', k.Started t → k.Started t' → t ≠ t' → (k.videoTable t.val).base + hex4KB ≤ (k.videoTable t'.val).base ∨
    (k.videoTable t'.val).base + hex4KB ≤ (k.videoTable t.val).base

/-- What `vidmap_func` hands the running program: the four bytes it stores are those of the terminal's address. -/
def VidmapHands (k : Kernel) : Prop :=
  ∀ s k', vidmapFunc k s = (0, .ok k') → ∀ i (hi : i < (wordBytes (vidmapAddr k.currTerm)).length),
    ∃ a, k'.translate (s + i) = some a ∧ k'.mem a = (wordBytes (vidmapAddr k.currTerm))[i]

namespace VideoMappingAux

open ProcessAux VideoMapAux

variable {k k' : Kernel} {img : Image}

/-- The addresses of a terminal's page. -/
theorem translate_vidmapAddr (h : VideoMapped k) (t : Term) {off : Nat} (ho : off < hex4KB) :
    k.translate (vidmapAddr t + off) = some ((k.videoTable t.val).base + off) := by
  have ht := t.isLt
  have hflags := h.flags t
  unfold hex4KB at ho
  unfold Kernel.translate vidmapAddr mb128 mem4MB hex4KB pdEntryProg vmVideoIdx
  have h1 : (0x8000000 + 0x400000 + t.val * 0x1000 + off) / 0x400000 = 33 := by omega
  have h2 : (0x8000000 + 0x400000 + t.val * 0x1000 + off) % 0x400000 / 0x1000 = t.val := by omega
  have h3 : (0x8000000 + 0x400000 + t.val * 0x1000 + off) % 0x1000 = off := by omega
  rw [if_neg (by omega), if_pos h1, h2, h3]
  dsimp only
  rw [hflags]
  rfl

theorem base_of_started (h : VideoMapped k) {t : Term} (ht : k.Started t) : (k.videoTable t.val).base = k.screenBase t := by
  unfold Console.screenBase
  by_cases hd : t = k.dispTerm
  · rw [if_pos hd, hd]
    exact h.shown
  · rw [if_neg hd]
    exact h.behind t ht hd

theorem videoVirtualised_of_mapped (h : VideoMapped k) : VideoVirtualised k := by
  refine ⟨?_, ?_, ?_, ?_⟩
  · intro t ht
    rw [← base_of_started h ht, ← h.flags t]
  · intro t ht off ho
    rw [translate_vidmapAddr h t ho, base_of_started h ht]
  · intro t ht hd off ho b
    have hbuf := videoBuffer_eq t
    refine ⟨set k.mem (videoBuffer t + off) b, ?_, ?_⟩
    · rw [storeBytes, translate_vidmapAddr h t ho, h.behind t ht hd]
      rfl
    · intro x hlo hhi
      unfold video at hlo hhi
      unfold hex4KB at hhi
      exact set_other _ _ (by omega)
  · intro t t' ht ht' hne
    have hval : t.val ≠ t'.val := fun he => hne (Fin.ext he)
    have hbuf := videoBuffer_eq t
    have hbuf' := videoBuffer_eq t'
    rw [base_of_started h ht, base_of_started h ht']
    unfold Console.screenBase hex4KB video
    split
    · rw [if_neg (by rintro rfl; exact hne (by assumption))]
      omega
    · split
      · omega
      · omega

/-! ### What vidmap_func stores -/

/-- Bytes stored at different physical addresses are there afterwards. -/
theorem storeBytes_read (bs : List UInt8) : ∀ (k k' : Kernel) (v : Nat),
    (∀ i j, i < j → j < bs.length → k.translate (v + i) ≠ k.translate (v + j)) → storeBytes k v bs = .ok k' →
    ∀ i (hi : i < bs.length), ∃ a, k.translate (v + i) = some a ∧ k'.mem a = bs[i] := by
  induction bs with
  | nil => exact fun _ _ _ _ _ i hi => absurd hi (Nat.not_lt_zero i)
  | cons b bs ih =>
    intro k k' v hinj hs i hi
    rw [storeBytes] at hs
    cases ha : k.translate v with
    | none =>
      rw [ha] at hs
      cases hs
    | some a =>
      simp only [ha] at hs
      cases i with
      | zero =>
        refine ⟨a, ha, ?_⟩
        have hfree : ∀ j < bs.length, k.translate (v + 1 + j) ≠ some a := by
          intro j hj hx
          have hne := hinj 0 (j + 1) (by omega) (Nat.succ_lt_succ hj)
          rw [← Nat.add_assoc, Nat.add_right_comm v j 1, Nat.add_zero, ha] at hne
          exact hne hx.symm
        exact (storeBytes_frame bs _ _ _ hs a hfree).trans (set_self _ _ _)
      | succ i =>
        have hrest : ∀ i j, i < j → j < bs.length → k.translate (v + 1 + i) ≠ k.translate (v + 1 + j) := by
          intro i j hij hj
          have hne := hinj (i + 1) (j + 1) (Nat.succ_lt_succ hij) (Nat.succ_lt_succ hj)
          rwa [← Nat.add_assoc, ← Nat.add_assoc, Nat.add_right_comm v i, Nat.add_right_comm v j] at hne
        obtain ⟨x, hx, hv⟩ := ih { k with mem := set k.mem a b } k' (v + 1) hrest hs i (Nat.lt_of_succ_lt_succ hi)
        exact ⟨x, by rw [← Nat.add_assoc, Nat.add_right_comm]; exact hx, hv⟩

/-- In the range `vidmap_func` accepts, the four bytes it stores go to different physical addresses. -/
theorem translate_injective (h : VideoInv k) (hrun : k.currPcbPtr ≠ none) {s : Nat} (hlo : mb128 ≤ s) (hhi : s ≤ mb128 + mem4MB)
    {i j : Nat} (hij : i < j) (hj : j < 4) : k.translate (s + i) ≠ k.translate (s + j) := by
  have hpage := h.procs.page hrun
  have hflags := h.mapped.flags 0
  have hpresent : k.pdProg.flags % 2 = 1 := by
    rw [hpage]
    simp [progEntry, pagesize4MBProg]
  have hbase : (k.videoTable 0).base < 0x800000 - 0x1000 := by
    have hbuf := videoBuffer_eq 0
    rcases h.mapped.frames 0 with hb | hb
    · rw [show (k.videoTable 0).base = video from hb]
      decide
    · rw [show (k.videoTable 0).base = videoBuffer 0 from hb, hbuf]
      decide
  -- an address below the end of the program page, and one from there on
  have hprog : ∀ l < 4, s + l < 0x8400000 → k.translate (s + l) = some (k.pdProg.base + (s + l) % mem4MB) := by
    intro l hl hlt
    unfold mb128 at hlo
    unfold Kernel.translate
    rw [if_pos (by unfold mem4MB pdEntryProg; omega), if_pos hpresent]
  have hvideo : ∀ l < 4, 0x8400000 ≤ s + l → k.translate (s + l) = some ((k.videoTable 0).base + (s + l) % hex4KB) := by
    intro l hl hle
    unfold mb128 mem4MB at hhi
    unfold Kernel.translate mem4MB pdEntryProg vmVideoIdx hex4KB
    rw [if_neg (by omega), if_pos (by omega), show (s + l) % 4194304 / 4096 = 0 by omega]
    dsimp only
    rw [show (k.videoTable 0).flags = 7 from hflags]
    rfl
  have hbig : 0x800000 ≤ k.pdProg.base := by
    rw [hpage]
    unfold progEntry mem4MB
    dsimp only
    omega
  unfold mb128 at hlo
  unfold mb128 mem4MB at hhi
  intro he
  by_cases h1 : s + i < 0x8400000
  · rw [hprog i (by omega) h1] at he
    by_cases h2 : s + j < 0x8400000
    · rw [hprog j hj h2, Option.some.injEq] at he
      unfold mem4MB at he
      omega
    · rw [hvideo j hj (by omega), Option.some.injEq] at he
      unfold mem4MB hex4KB at he
      omega
  · rw [hvideo i (by omega) (by omega), hvideo j hj (by omega), Option.some.injEq] at he
    unfold hex4KB at he
    omega

theorem vidmapHands_of_videoInv (h : VideoInv k) (hrun : k.currPcbPtr ≠ none) : VidmapHands k := by
  intro s k' hs
  unfold vidmapFunc at hs
  split at hs
  · cases hs
  · rename_i hrange
    push Not at hrange
    dsimp only at hs
    rw [Prod.mk.injEq] at hs
    obtain ⟨m, hm⟩ := storeBytes_state (wordBytes (vidmapAddr k.currTerm)) { k with
      videoTable := Function.update k.videoTable k.currTerm.val
        { k.videoTable k.currTerm.val with flags := (k.videoTable k.currTerm.val).flags ||| 4 } } s
    have hst := hs.2
    rw [open_again h.mapped] at hst hm
    rw [hst, Outcome.state_ok] at hm
    have hread := storeBytes_read (wordBytes (vidmapAddr k.currTerm)) k k' s
      (fun i j hij hj => translate_injective h hrun hrange.2 hrange.1 hij hj) hst
    intro i hi
    obtain ⟨a, ha, hv⟩ := hread i hi
    refine ⟨a, ?_, hv⟩
    rw [hm]
    exact ha

end VideoMappingAux

open ProcessAux VideoMapAux VideoMappingAux in
/-- Along every run from boot, whatever it ends in, the video pages of the started terminals map their logical screens, the
addresses given out translate to them, a store through one in the background leaves the visible screen alone, and the frames are
different; and while a program runs, `vidmap_func` hands it its own terminal's address. -/
theorem run_keeps_video_virtualised (img : Image) (m : CPtr) (p : Addr → PCB) (events : List Event) :
    VideoVirtualised (run (step img) (boot m p) events).state ∧
      ∀ k, run (step img) (boot m p) events = .ok k → k.currPcbPtr ≠ none → VidmapHands k := by
  constructor
  · exact run_state (I := VideoInv) (J := VideoVirtualised) (fun _ h => videoVirtualised_of_mapped h.mapped) (fun _ _ _ h hs => videoInv_step h hs)
      (fun _ e h => videoVirtualised_of_mapped (videoMapped_step h img e)) (videoInv_boot m p)
  · intro k hk hrun
    exact vidmapHands_of_videoInv (videoInv_reachable ⟨events, hk⟩) hrun

/-- A shell on terminal 0, one on terminal 1, and terminal 0 displayed again: the program of terminal 1 runs in the background. -/
def backgroundRun : Outcome Stop Kernel :=
  run (step shellImage) (boot (fun _ => 0) (fun _ => rootShellPCB))
    [.execute shellCommand zeroResidue, .switchTerminals 1 zeroResidue, .switchTerminals 0 zeroResidue]

open ProcessAux VideoMapAux VideoMappingAux in
/-- The table is one for all programs: the one running in the background has the page of the displayed terminal open to it, and
what it stores at that terminal's address is on the visible screen. -/
theorem backgroundRun_reaches_visible_screen :
    backgroundRun.isOk = true ∧ backgroundRun.state.currTerm = 1 ∧ backgroundRun.state.dispTerm = 0 ∧
      backgroundRun.state.Started 1 ∧ (backgroundRun.state.videoTable 0).flags = 0x7 ∧
      ∀ b, ∃ m, storeBytes backgroundRun.state (vidmapAddr 0) [b] = .ok { backgroundRun.state with mem := m } ∧ m video = b := by
  have hok : backgroundRun.isOk = true := by decide +kernel
  have hdisp : backgroundRun.state.dispTerm = 0 := by decide +kernel
  have hstarted : backgroundRun.state.Started 1 := by
    unfold Kernel.Started
    decide +kernel
  have hr : Reachable (step shellImage) (boot (fun _ => 0) (fun _ => rootShellPCB)) backgroundRun.state := by
    unfold backgroundRun at hok ⊢
    exact Reachable.of_isOk _ hok
  have hv := (videoInv_reachable hr).mapped
  have hshown := hv.shown
  have htrans := translate_vidmapAddr hv 0 (show 0 < hex4KB by decide)
  rw [hdisp] at hshown
  rw [hshown] at htrans
  refine ⟨hok, by decide +kernel, hdisp, hstarted, hv.flags 0, ?_⟩
  intro b
  generalize backgroundRun.state = k at htrans ⊢
  refine ⟨set k.mem video b, ?_, set_self _ _ _⟩
  rw [Nat.add_zero] at htrans
  rw [storeBytes, htrans]
  rfl

end ThreeTermOS
