import ThreeTermOS.Lemmas.LoadSteps

/-!
# Loading a program under preemption

`execute_func` maps the page of the new process, loads it, and only then makes the new process the current one. A tick that comes
back to the terminal in between maps the page of the process that is still current: the bytes left to load go there. This module
says exactly which placements of ticks in a call are harmless.
-/

namespace ThreeTermOS

open Bytes Chain Runs

/-- The call under way on terminal `t` is in a phase. -/
def InPhase (s : Machine) (t : Term) (ph : Phase) : Prop := ∃ x, s.execs t = some x ∧ x.point.phase = ph

/-- What a step of the call on terminal `t` may store: a byte it loads goes to the page of the new process, and no byte of the page
of its parent changes. -/
structure Lands (img : Image) (s : Machine) (t : Term) : Prop where
  byte : ∀ x v b bytes, s.execs t = some x → x.point = .load v (b :: bytes) →
    ∃ a, s.kernel.translate v = some a ∧ InProgPage (creates s t) t a
  parent : creates s t ≠ 0 → ∀ s', moveStep img s .advance = .ok s' → ∀ a, InProgPage (creates s t - 1) t a →
    s'.kernel.mem a = s.kernel.mem a

/-- The steps of the call on terminal `t` store where they may. -/
def SafeLoad (img : Image) (t : Term) (s : Machine) (m : Move) : Prop := Advances s.kernel m t → Lands img s t

/-- No tick comes back to terminal `t` while bytes are left to load. -/
def NoTickInLoad (t : Term) (s : Machine) (m : Move) : Prop := Resumes s.kernel m t → ¬InPhase s t .loading

/-- The ticks of a run spare the call on terminal `t`: none comes back while bytes are left to load, and if one comes back after
that and before `curr_pcb_ptr` is set, another comes back after it is set. -/
def TicksSpare (img : Image) (t : Term) (s : Machine) (moves : List Move) : Prop :=
  Meets (moveStep img) (NoTickInLoad t) s moves ∧
    (Takes (moveStep img) (fun s m => Resumes s.kernel m t ∧ InPhase s t .loaded) s moves →
      Takes (moveStep img) (fun s m => Resumes s.kernel m t ∧ InPhase s t .committed) s moves)

/-- The file is loaded within the program page. -/
def FileFits (img : Image) (d : Dentry) : Prop := progOff + (loadBytes img d).length ≤ mem4MB

namespace PreemptedLoadAux

open ProcessAux PreemptionAux LoadStepsAux

variable {s s' : Machine} {img : Image} {t : Term} {x x' : Exec} {m : Move} {p q : Nat} {d : Dentry}

/-! ### Loads that land -/

/-- The bytes left to load go to the page of the new process. -/
def LoadsWithin (t : Term) (p : Nat) (s : Machine) (x : Exec) : Prop :=
  ∀ v b bytes, x.point = .load v (b :: bytes) → mb128 ≤ v ∧ v + (bytes.length + 1) ≤ mb128 + mem4MB ∧ Maps s t p

/-- With no tick in the load, a step of the call loads into the child's page. -/
theorem loadsWithin_step (hfits : FileFits img d) (h : Along t p d s) (hx : s.execs t = some x)
    (hg : p = 0 ∨ NoTickInLoad t s m) (hq : LoadsWithin t p s x) (hstep : CallStep img t p s s' m x x') :
    LoadsWithin t p s' x' := by
  intro v b bytes hp'
  cases hstep with
  | own ha hcurr hown =>
    cases hown with
    | map hp hload hpage hmem =>
      rw [hp', (h.call x hx).2.1, Point.load.injEq] at hload
      obtain ⟨rfl, hbytes⟩ := hload
      have hlen : bytes.length + 1 = (loadBytes img d).length := by rw [← hbytes, List.length_cons]
      unfold FileFits at hfits
      refine ⟨?_, ?_, maps_of_map h hx ha hpage⟩
      · unfold loadAddr
        omega
      · unfold loadAddr
        omega
    | load v₀ b₀ bytes₀ a hp htrans hload hpage hmem =>
      rw [hp', Point.load.injEq] at hload
      obtain ⟨rfl, rfl⟩ := hload
      obtain ⟨hlo, hhi, hmaps⟩ := hq v₀ b₀ (b :: bytes) hp
      rw [List.length_cons] at hhi
      exact ⟨by omega, by omega, hmaps.own ha hpage⟩
    | later hp hlate hpage hmem =>
      rw [phase_load_cons hp'] at hlate
      rcases hlate with hlate | ⟨-, hlate⟩
      · cases hlate
      · cases hlate
  | resumed hr he hcommitted hbefore =>
    subst he
    obtain ⟨hlo, hhi, -⟩ := hq v b bytes hp'
    have hloading := phase_load_cons hp'
    refine ⟨hlo, hhi, fun _ => ?_⟩
    rcases hg with rfl | hno
    · exact hbefore (by rw [hloading]; decide)
    · exact absurd ⟨x', hx, hloading⟩ (hno hr)
  | spared hr he hpage =>
    subst he
    obtain ⟨hlo, hhi, hmaps⟩ := hq v b bytes hp'
    exact ⟨hlo, hhi, hmaps.spared hpage⟩

/-- A step of the call stores nothing but the byte it loads. -/
theorem mem_of_advance (hx : s.execs s.kernel.currTerm = some x) (hchecked : x.point ≠ .restart)
    (hs : advance img s x = .ok s') :
    s'.kernel.mem = s.kernel.mem ∨
      ∃ v b bytes a, x.point = .load v (b :: bytes) ∧ s.kernel.translate v = some a ∧ s'.kernel.mem = set s.kernel.mem a b := by
  cases hx' : s'.execs s.kernel.currTerm with
  | some x' =>
    obtain ⟨-, -, -, -, hown⟩ := ownStep_of_advance hx hchecked hs hx'
    cases hown with
    | map hp hload hpage hmem => exact Or.inl hmem
    | load v b bytes a hp ha hload hpage hmem => exact Or.inr ⟨v, b, bytes, a, hp, ha, hmem⟩
    | later hp hlate hpage hmem => exact Or.inl hmem
  | none =>
    rcases advance_goes hs with ⟨k, p, -, rfl⟩ | ⟨-, rfl⟩
    · rw [execs_goto] at hx'
      cases hx'
    · exact Or.inl rfl

/-- Loads within the page of the new process are safe. -/
theorem safeLoad_of_within (h : Along t p d s) (hx : s.execs t = some x) (hq : LoadsWithin t p s x) : SafeLoad img t s m := by
  intro ha
  have hp := (h.call x hx).1
  have hlands : ∀ v b bytes a, x.point = .load v (b :: bytes) → s.kernel.translate v = some a → InProgPage p t a := by
    intro v b bytes a hpoint htrans
    obtain ⟨hlo, hhi, hmaps⟩ := hq v b bytes hpoint
    obtain ⟨a', htrans', hin⟩ := translate_progEntry (hmaps ha.2) hlo (by omega)
    rw [htrans, Option.some.injEq] at htrans'
    exact htrans' ▸ hin
  refine ⟨fun x₁ v b bytes hx₁ hpoint => ?_, fun hne s' hs a hin => ?_⟩
  · rw [hx, Option.some.injEq] at hx₁
    subst hx₁
    obtain ⟨hlo, hhi, hmaps⟩ := hq v b bytes hpoint
    rw [hp]
    exact translate_progEntry (hmaps ha.2) hlo (by omega)
  · have hcurr := ha.2
    subst hcurr
    rw [moveStep, hx] at hs
    rcases mem_of_advance hx (h.call x hx).2.2 hs with hmem | ⟨v, b, bytes, a', hpoint, htrans, hmem⟩
    · rw [hmem]
    · have hin' := hlands v b bytes a' hpoint htrans
      have hne' : a ≠ a' := by
        rintro rfl
        have := inProgPage_inj hin hin'
        omega
      rw [hmem, set_other _ _ hne']

/-! ### The page mapped in the end -/

/-- Once its page is mapped, the new process's page stays mapped. -/
def MappedSince (t : Term) (p : Nat) (s : Machine) (x : Exec) : Prop := x.point.phase ≠ .unmapped → Maps s t p

/-- With no tick since the page was mapped, a step of the call leaves it mapped. -/
theorem mappedSince_step (h : Along t p d s) (hx : s.execs t = some x)
    (hg : p = 0 ∨ (NoTickInLoad t s m ∧ ¬(Resumes s.kernel m t ∧ InPhase s t .loaded))) (hq : MappedSince t p s x)
    (hstep : CallStep img t p s s' m x x') : MappedSince t p s' x' := by
  intro hp'
  cases hstep with
  | own ha hcurr hown =>
    cases hown with
    | map hp hload hpage hmem => exact maps_of_map h hx ha hpage
    | load v b bytes a hp htrans hload hpage hmem =>
      have hmaps := hq (by rw [phase_load_cons hp]; decide)
      exact hmaps.own ha hpage
    | later hp hlate hpage hmem =>
      have hmaps := hq (by rcases hp with hp | hp <;> rw [hp] <;> decide)
      exact hmaps.own ha hpage
  | resumed hr he hcommitted hbefore =>
    subst he
    intro _
    by_cases hc : x'.point.phase = .committed
    · exact hcommitted hc
    · rcases hg with rfl | ⟨hno, hlate⟩
      · exact hbefore hc
      · cases hph : x'.point.phase with
        | unmapped => exact absurd hph hp'
        | loading => exact absurd ⟨x', hx, hph⟩ (hno hr)
        | loaded => exact absurd ⟨hr, x', hx, hph⟩ hlate
        | committed => exact absurd hph hc
  | spared hr he hpage =>
    subst he
    exact (hq hp').spared hpage

/-- The new process is current and its page is mapped. -/
def CommittedMaps (t : Term) (p : Nat) (s : Machine) (x : Exec) : Prop := x.point.phase = .committed ∧ Maps s t p

/-- A step of the call that commits finds the page mapped. -/
theorem committedMaps_step (hq : CommittedMaps t p s x) (hstep : CallStep img t p s s' m x x') : CommittedMaps t p s' x' := by
  obtain ⟨hc, hmaps⟩ := hq
  cases hstep with
  | own ha hcurr hown =>
    cases hown with
    | map hp hload hpage hmem =>
      rw [hp] at hc
      cases hc
    | load v b bytes a hp htrans hload hpage hmem =>
      rw [phase_load_cons hp] at hc
      cases hc
    | later hp hlate hpage hmem =>
      rcases hlate with hlate | ⟨hlate, -⟩
      · exact ⟨hlate, hmaps.own ha hpage⟩
      · rw [hc] at hlate
        cases hlate
  | resumed hr he hcommitted hbefore =>
    subst he
    exact ⟨hc, fun _ => hcommitted hc⟩
  | spared hr he hpage =>
    subst he
    exact ⟨hc, hmaps.spared hpage⟩

/-- A tick that comes back once the new process is current maps its page. -/
theorem committedMaps_of_resumed (hr : Resumes s.kernel m t) (hc : x.point.phase = .committed)
    (hstep : CallStep img t p s s' m x x') : CommittedMaps t p s' x' := by
  cases hstep with
  | own ha hcurr hown => exact absurd hr (not_resumes_of_advances ha)
  | resumed hr he hcommitted hbefore =>
    subst he
    exact ⟨hc, fun _ => hcommitted hc⟩
  | spared hno he hpage => exact absurd hr hno

/-! ### Loads that do not -/

/-- The video pages are no part of a program page: an address there is reached through the page directory's program entry. -/
theorem page_of_translate (hv : LowVideo s.kernel) {v a : Nat} (htrans : s.kernel.translate v = some a) (hin : InProgPage p t a) :
    v / mem4MB = pdEntryProg ∧ a = s.kernel.pdProg.base + v % mem4MB := by
  unfold Kernel.translate at htrans
  split at htrans
  · rename_i hdir
    split at htrans
    · rw [Option.some.injEq] at htrans
      exact ⟨hdir, htrans.symm⟩
    · cases htrans
  · split at htrans
    · dsimp only at htrans
      split at htrans
      · rw [Option.some.injEq] at htrans
        have hlow := hv (v % mem4MB / hex4KB)
        have hlt := Nat.mod_lt v (show 0 < hex4KB by decide)
        have hbase := hin.1
        unfold progEntry mem4MB at hbase
        dsimp only at hbase
        rw [show mb8 = 8388608 from rfl] at hlow
        omega
      · cases htrans
    · cases htrans

/-- A byte that lands in the page of the new process is loaded with that page mapped. -/
theorem entry_of_lands (hv : LowVideo s.kernel) {v a : Nat} (hpage : s.kernel.pdProg = progEntry q t)
    (htrans : s.kernel.translate v = some a) (hin : InProgPage p t a) : p = q := by
  obtain ⟨-, ha⟩ := page_of_translate hv htrans hin
  have hlt := Nat.mod_lt v (show 0 < mem4MB by decide)
  refine inProgPage_inj hin ⟨?_, ?_⟩
  · rw [ha, hpage]
    exact Nat.le_add_right _ _
  · rw [ha, hpage]
    exact Nat.add_lt_add_left hlt _

/-- Bytes left to load and the parent's page mapped. -/
def LoadsAstray (t : Term) (p : Nat) (s : Machine) (x : Exec) : Prop := x.point.phase = .loading ∧ Maps s t (p - 1)

/-- A call that is loading has a byte to store. -/
theorem point_of_loading (h : x.point.phase = .loading) : ∃ v b bytes, x.point = .load v (b :: bytes) := by
  cases hp : x.point with
  | load v bytes =>
    cases bytes with
    | nil =>
      rw [hp] at h
      cases h
    | cons b bytes => exact ⟨v, b, bytes, rfl⟩
  | _ =>
    rw [hp] at h
    cases h

/-- With the parent's page mapped, no byte is loaded safely: the call stays where it is. -/
theorem loadsAstray_step (hne : p ≠ 0) (h : Along t p d s) (hx : s.execs t = some x) (hg : SafeLoad img t s m)
    (hq : LoadsAstray t p s x) (hstep : CallStep img t p s s' m x x') : LoadsAstray t p s' x' := by
  obtain ⟨hloading, hmaps⟩ := hq
  cases hstep with
  | own ha hcurr hown =>
    obtain ⟨v, b, bytes, hpoint⟩ := point_of_loading hloading
    obtain ⟨a, htrans, hin⟩ := (hg ha).byte x v b bytes hx hpoint
    rw [(h.call x hx).1] at hin
    have hpage := entry_of_lands h.video (hmaps ha.2) htrans hin
    omega
  | resumed hr he hcommitted hbefore =>
    subst he
    exact ⟨hloading, fun _ => hbefore (by rw [hloading]; decide)⟩
  | spared hr he hpage =>
    subst he
    exact ⟨hloading, hmaps.spared hpage⟩

/-- A call resumed in its load goes on in the wrong page. -/
theorem loadsAstray_of_resumed (hr : Resumes s.kernel m t) (hc : x.point.phase = .loading)
    (hstep : CallStep img t p s s' m x x') : LoadsAstray t p s' x' := by
  cases hstep with
  | own ha hcurr hown => exact absurd hr (not_resumes_of_advances ha)
  | resumed hr he hcommitted hbefore =>
    subst he
    exact ⟨hc, fun _ => hbefore (by rw [hc]; decide)⟩
  | spared hno he hpage => exact absurd hr hno

/-- All bytes loaded and the parent's page mapped. -/
def LoadedAstray (t : Term) (p : Nat) (s : Machine) (x : Exec) : Prop :=
  (x.point.phase = .loaded ∨ x.point.phase = .committed) ∧ Maps s t (p - 1)

/-- Unless a tick comes back once the new process is current, the parent's page stays mapped. -/
theorem loadedAstray_step (hx : s.execs t = some x) (hg : ¬(Resumes s.kernel m t ∧ InPhase s t .committed))
    (hq : LoadedAstray t p s x) (hstep : CallStep img t p s s' m x x') : LoadedAstray t p s' x' := by
  obtain ⟨hc, hmaps⟩ := hq
  cases hstep with
  | own ha hcurr hown =>
    cases hown with
    | map hp hload hpage hmem =>
      rw [hp] at hc
      rcases hc with hc | hc <;> cases hc
    | load v b bytes a hp htrans hload hpage hmem =>
      rw [phase_load_cons hp] at hc
      rcases hc with hc | hc <;> cases hc
    | later hp hlate hpage hmem => exact ⟨hlate.elim Or.inr (fun hl => Or.inl hl.2), hmaps.own ha hpage⟩
  | resumed hr he hcommitted hbefore =>
    subst he
    have hnot : x'.point.phase ≠ .committed := fun hph => hg ⟨hr, x', hx, hph⟩
    exact ⟨hc, fun _ => hbefore hnot⟩
  | spared hr he hpage =>
    subst he
    exact ⟨hc, hmaps.spared hpage⟩

/-- A call resumed after its load enters the child in the wrong page. -/
theorem loadedAstray_of_resumed (hr : Resumes s.kernel m t) (hc : x.point.phase = .loaded)
    (hstep : CallStep img t p s s' m x x') : LoadedAstray t p s' x' := by
  cases hstep with
  | own ha hcurr hown => exact absurd hr (not_resumes_of_advances ha)
  | resumed hr he hcommitted hbefore =>
    subst he
    exact ⟨Or.inl hc, fun _ => hbefore (by rw [hc]; decide)⟩
  | spared hno he hpage => exact absurd hr hno

/-- More bytes are left to load than the program page holds. -/
def LoadsBeyond (x : Exec) : Prop :=
  x.point = .mapProgPage ∨
    ∃ v bytes, x.point = .load v bytes ∧ v ≤ mb128 + mem4MB ∧ mb128 + mem4MB < v + bytes.length

/-- A file too long for the page is loaded beyond it. -/
theorem loadsBeyond_step (hfits : ¬FileFits img d) (h : Along t p d s) (hx : s.execs t = some x) (hg : SafeLoad img t s m)
    (hq : LoadsBeyond x) (hstep : CallStep img t p s s' m x x') : LoadsBeyond x' := by
  cases hstep with
  | own ha hcurr hown =>
    cases hown with
    | map hp hload hpage hmem =>
      rw [(h.call x hx).2.1] at hload
      unfold FileFits at hfits
      refine Or.inr ⟨_, _, hload, ?_, ?_⟩
      · unfold loadAddr progOff mem4MB
        omega
      · unfold loadAddr
        omega
    | load v b bytes a hp htrans hload hpage hmem =>
      obtain ⟨a', htrans', hin⟩ := (hg ha).byte x v b bytes hx hp
      obtain ⟨hdir, -⟩ := page_of_translate h.video htrans' hin
      rcases hq with hq | ⟨v₁, bytes₁, hq, hlo, hhi⟩
      · rw [hp] at hq
        cases hq
      · rw [hp, Point.load.injEq] at hq
        obtain ⟨rfl, rfl⟩ := hq
        rw [List.length_cons] at hhi
        have hlt : v < mb128 + mem4MB := by
          unfold mem4MB pdEntryProg at hdir
          unfold mb128 mem4MB
          omega
        exact Or.inr ⟨_, _, hload, by omega, by omega⟩
    | later hp hlate hpage hmem =>
      rcases hq with hq | ⟨v₁, bytes₁, hq, hlo, hhi⟩
      · rw [hq] at hp
        rcases hp with hp | hp <;> cases hp
      · cases bytes₁ with
        | nil =>
          rw [List.length_nil] at hhi
          omega
        | cons b bytes =>
          rw [phase_load_cons hq] at hp
          rcases hp with hp | hp <;> cases hp
  | resumed hr he hcommitted hbefore => exact he ▸ hq
  | spared hr he hpage => exact he ▸ hq

/-! ### The call from its first step on -/

/-- A call about to map its page is at the start of its load. -/
theorem along_start {m : CPtr} {p₀ : Addr → PCB} (hr : Reachable (moveStep img) (Machine.boot m p₀) s) (hx : s.execs t = some x)
    (hp : x.point = .mapProgPage) : Along t (creates s t) x.fileEntry s := by
  refine ⟨machineInv_reachable hr, ?_, fun x₁ hx₁ => ⟨rfl, ?_⟩⟩
  · exact Reachable.invariant (I := fun s => LowVideo s.kernel) (fun _ _ _ h hs => lowVideo_moveStep h hs) (lowVideo_boot m p₀) hr
  · rw [hx, Option.some.injEq] at hx₁
    rw [← hx₁, hp]
    exact ⟨rfl, nofun⟩

/-- A fact carried by every step of a run is carried to its end. -/
theorem carried_run {Q : Machine → Exec → Prop} {G : Machine → Move → Prop} {moves : List Move}
    (hQ : ∀ s m s' x x', Along t p d s → s.execs t = some x → G s m → Q s x → CallStep img t p s s' m x x' → Q s' x')
    (h : Carried t p d Q s) (hu : Meets (moveStep img) (UnderWay t) s moves) (hg : Meets (moveStep img) G s moves)
    (hs : run (moveStep img) s moves = .ok s') : Carried t p d Q s' :=
  run_invariant_of_meets (carried_step hQ) h (hu.and hg) hs

/-- A tick that comes back in a phase makes `Q` hold of the call, and it is carried from there on. -/
theorem carried_run_of_tick {Q : Machine → Exec → Prop} {G : Machine → Move → Prop} {ph : Phase} {moves : List Move}
    (htick : ∀ s m s' x x', Resumes s.kernel m t → x.point.phase = ph → CallStep img t p s s' m x x' → Q s' x')
    (hQ : ∀ s m s' x x', Along t p d s → s.execs t = some x → G s m → Q s x → CallStep img t p s s' m x x' → Q s' x')
    (h : Along t p d s) (hu : Meets (moveStep img) (UnderWay t) s moves) (hg : Meets (moveStep img) G s moves)
    (ht : Takes (moveStep img) (fun s m => Resumes s.kernel m t ∧ InPhase s t ph) s moves)
    (hs : run (moveStep img) s moves = .ok s') : Carried t p d Q s' := by
  refine run_of_takes (I := Along t p d) (fun s m s₁ h hug hs₁ => ?_) ?_ (carried_step hQ) h (hu.and hg) ht hs
  · obtain ⟨x, hx⟩ := Option.ne_none_iff_exists'.mp hug.1
    exact (callStep_of_move h hx hs₁).1
  · rintro s m s₁ h - ⟨hr, x, hx, hc⟩ hs₁
    obtain ⟨h₁, hstep⟩ := callStep_of_move h hx hs₁
    exact ⟨h₁, fun x' hx' => htick s m s₁ x x' hr hc (hstep x' hx')⟩

/-- A run that takes a step of one kind takes one of a wider kind. -/
theorem takes_congr {G H : Machine → Move → Prop} (hGH : ∀ s m, G s m → H s m) {moves : List Move}
    (ht : Takes (moveStep img) G s moves) : Takes (moveStep img) H s moves := by
  induction moves generalizing s with
  | nil => exact ht
  | cons m moves ih => exact ht.imp (hGH s m) (fun ⟨s', hs, ht⟩ => ⟨s', hs, ih ht⟩)

section Call

variable (h : Along t p d s) (hx : s.execs t = some x) (hp : x.point = .mapProgPage) {moves : List Move}
  (hu : Meets (moveStep img) (UnderWay t) s moves)

include h hx hp hu

/-- A file that fits, and no tick while it is loaded: every byte lands. -/
theorem meets_safeLoad (hfits : FileFits img d) (hno : p = 0 ∨ Meets (moveStep img) (NoTickInLoad t) s moves) :
    Meets (moveStep img) (SafeLoad img t) s moves := by
  have hstart : Carried t p d (LoadsWithin t p) s := by
    refine ⟨h, fun x₁ hx₁ v b bytes hload => ?_⟩
    rw [hx, Option.some.injEq] at hx₁
    rw [← hx₁, hp] at hload
    cases hload
  have hg : Meets (moveStep img) (fun s m => p = 0 ∨ NoTickInLoad t s m) s moves := by
    rcases hno with hz | hno
    · exact Meets.of_invariant (I := fun _ => True) (fun _ _ _ _ _ _ => trivial) (fun _ _ _ _ => Or.inl hz) trivial hu
    · exact Meets.of_invariant (I := fun _ => True) (fun _ _ _ _ _ _ => trivial) (fun _ _ _ hn => Or.inr hn) trivial hno
  refine Meets.of_invariant (carried_step (fun s m s' x x' => loadsWithin_step hfits)) ?_ hstart (hu.and hg)
  rintro s₁ m ⟨h₁, hq⟩ ⟨hu₁, -⟩
  obtain ⟨x₁, hx₁⟩ := Option.ne_none_iff_exists'.mp hu₁
  exact safeLoad_of_within h₁ hx₁ (hq x₁ hx₁)

variable (hs : run (moveStep img) s moves = .ok s') (hx' : s'.execs t = some x') (hi : x'.point = .iret)

include hs hx' hi

/-- With ticks that spare the call, the new process's page is mapped at the `iret`. -/
theorem page_at_iret (hcurr : s'.kernel.currTerm = t) (hspare : p = 0 ∨ TicksSpare img t s moves) : s'.kernel.pdProg = progEntry p t := by
  have hsince : ∀ G : Machine → Move → Prop,
      (∀ s m, G s m → p = 0 ∨ (NoTickInLoad t s m ∧ ¬(Resumes s.kernel m t ∧ InPhase s t .loaded))) →
      Meets (moveStep img) G s moves → s'.kernel.pdProg = progEntry p t := by
    intro G hG hg
    have hstart : Carried t p d (MappedSince t p) s := by
      refine ⟨h, fun x₁ hx₁ hph => absurd ?_ hph⟩
      rw [hx, Option.some.injEq] at hx₁
      rw [← hx₁, hp]
      rfl
    obtain ⟨-, hq⟩ := carried_run (fun s m s' x x' h hx hg => mappedSince_step h hx (hG s m hg)) hstart hu hg hs
    exact hq x' hx' (by rw [hi]; decide) hcurr
  rcases hspare with hz | ⟨hno, hlate⟩
  · exact hsince (UnderWay t) (fun _ _ _ => Or.inl hz) hu
  · rcases meets_or_takes (moveStep img) (fun s m => ¬(Resumes s.kernel m t ∧ InPhase s t .loaded)) s moves with hm | ht
    · exact hsince _ (fun _ _ hg => Or.inr hg) (hno.and hm)
    · have hcommit := hlate (takes_congr (fun _ _ hn => not_not.mp hn) ht)
      obtain ⟨-, hq⟩ := carried_run_of_tick (Q := CommittedMaps t p) (fun s m s' x x' => committedMaps_of_resumed)
        (fun s m s' x x' _ _ _ => committedMaps_step) h hu hu hcommit hs
      exact (hq x' hx').2 hcurr

/-- A call that loads safely loads a file that fits. -/
theorem fits_of_safe (hsafe : Meets (moveStep img) (SafeLoad img t) s moves) : FileFits img d := by
  by_contra hfits
  have hstart : Carried t p d (fun _ => LoadsBeyond) s := by
    refine ⟨h, fun x₁ hx₁ => Or.inl ?_⟩
    rw [hx, Option.some.injEq] at hx₁
    rw [← hx₁, hp]
  obtain ⟨-, hq⟩ := carried_run (fun s m s' x x' h hx hg => loadsBeyond_step hfits h hx hg) hstart hu hsafe hs
  rcases hq x' hx' with hq | ⟨v, bytes, hq, -⟩
  · rw [hi] at hq
    cases hq
  · rw [hi] at hq
    cases hq

omit hx hp in
/-- A call that loads safely and ends with its page mapped was spared by the ticks. -/
theorem spared_of_safe (hcurr : s'.kernel.currTerm = t) (hsafe : Meets (moveStep img) (SafeLoad img t) s moves)
    (hpage : s'.kernel.pdProg = progEntry p t) (hne : p ≠ 0) : TicksSpare img t s moves := by
  refine ⟨?_, fun hlate => ?_⟩
  · rcases meets_or_takes (moveStep img) (NoTickInLoad t) s moves with hm | ht
    · exact hm
    · have htick : Takes (moveStep img) (fun s m => Resumes s.kernel m t ∧ InPhase s t .loading) s moves := by
        refine takes_congr (fun s m hn => ?_) ht
        unfold NoTickInLoad at hn
        rw [Classical.not_imp, not_not] at hn
        exact hn
      obtain ⟨-, hq⟩ := carried_run_of_tick (Q := LoadsAstray t p) (fun s m s' x x' => loadsAstray_of_resumed)
        (fun s m s' x x' h hx hg => loadsAstray_step hne h hx hg) h hu hsafe htick hs
      have hloading := (hq x' hx').1
      rw [hi] at hloading
      cases hloading
  · rcases meets_or_takes (moveStep img) (fun s m => ¬(Resumes s.kernel m t ∧ InPhase s t .committed)) s moves with hm | ht
    · obtain ⟨-, hq⟩ := carried_run_of_tick (Q := LoadedAstray t p) (fun s m s' x x' => loadedAstray_of_resumed)
        (fun s m s' x x' _ hx hg => loadedAstray_step hx hg) h hu hm hlate hs
      have hparent := (hq x' hx').2 hcurr
      rw [hpage] at hparent
      have := progEntry_inj hparent
      omega
    · exact takes_congr (fun _ _ hn => not_not.mp hn) ht

end Call

end PreemptedLoadAux

open PreemptedLoadAux in
/-- Whatever ticks and other events come in between, the steps of an `execute_func` store where they may as long as its file fits in
the program page and, unless it puts a shell in the place of its terminal's only process, no tick comes back to the terminal while
bytes are left to load. When it reaches the `iret`, it has loaded safely and has its program's page mapped exactly when the file
fits and the ticks spared it. -/
theorem load_preempted_iff {img : Image} {m : CPtr} {p : Addr → PCB} {s : Machine} {t : Term} {x : Exec}
    (hr : Reachable (moveStep img) (Machine.boot m p) s) (hx : s.execs t = some x) (hp : x.point = .mapProgPage) :
    (∀ moves, Meets (moveStep img) (UnderWay t) s moves → FileFits img x.fileEntry →
      (creates s t = 0 ∨ Meets (moveStep img) (NoTickInLoad t) s moves) → Meets (moveStep img) (SafeLoad img t) s moves) ∧
    ∀ moves s' x', run (moveStep img) s moves = .ok s' → Meets (moveStep img) (UnderWay t) s moves → s'.execs t = some x' →
      x'.point = .iret → s'.kernel.currTerm = t →
        (Meets (moveStep img) (SafeLoad img t) s moves ∧ s'.kernel.pdProg = progEntry (creates s t) t ↔
          FileFits img x.fileEntry ∧ (creates s t = 0 ∨ TicksSpare img t s moves)) := by
  have h := along_start hr hx hp
  refine ⟨fun moves hu hfits hno => meets_safeLoad h hx hp hu hfits hno, fun moves s' x' hs hu hx' hi hcurr => ⟨?_, ?_⟩⟩
  · rintro ⟨hsafe, hpage⟩
    refine ⟨fits_of_safe h hx hp hu hs hx' hi hsafe, ?_⟩
    by_cases hz : creates s t = 0
    · exact Or.inl hz
    · exact Or.inr (spared_of_safe h hu hs hx' hi hcurr hsafe hpage hz)
  · rintro ⟨hfits, hspare⟩
    exact ⟨meets_safeLoad h hx hp hu hfits (hspare.imp id (fun hm => hm.1)), page_at_iret h hx hp hu hs hx' hi hcurr hspare⟩

/-! ## Runs with ticks -/

/-- The terminal a tick switches to. -/
def Move.tickTerm : Move → Option Term
  | .event (.schedule t _) => some t
  | _ => none

/-- A tick resumes a terminal that has a program while no switch is under way. -/
theorem resumes_iff {k : Kernel} {m : Move} {t : Term} :
    Resumes k m t ↔ m.tickTerm = some t ∧ k.switchLock = false ∧ (k.activeProgs t).isSome = true := by
  rw [Option.isSome_iff_ne_none]
  constructor
  · rintro ⟨r, rfl, h⟩
    exact ⟨rfl, h⟩
  · rintro ⟨htick, h⟩
    cases m with
    | advance => cases htick
    | restart r => cases htick
    | event e =>
      cases e with
      | schedule u r =>
        rw [Move.tickTerm, Option.some.injEq] at htick
        exact ⟨r, by rw [htick], h⟩
      | _ => cases htick

instance (k : Kernel) (m : Move) (t : Term) : Decidable (Resumes k m t) := decidable_of_iff _ resumes_iff.symm

instance (s : Machine) (t : Term) (ph : Phase) : Decidable (InPhase s t ph) :=
  decidable_of_iff ((s.execs t).map (fun x => x.point.phase) = some ph) Option.map_eq_some_iff

instance (t : Term) (s : Machine) (m : Move) : Decidable (UnderWay t s m) :=
  decidable_of_iff ((s.execs t).isSome = true) Option.isSome_iff_ne_none

instance (t : Term) (s : Machine) (m : Move) : Decidable (NoTickInLoad t s m) :=
  inferInstanceAs (Decidable (_ → _))

instance (img : Image) (d : Dentry) : Decidable (FileFits img d) := inferInstanceAs (Decidable (_ ≤ _))

instance (img : Image) (t : Term) (s : Machine) (moves : List Move) : Decidable (TicksSpare img t s moves) :=
  inferInstanceAs (Decidable (_ ∧ (_ → _)))

/-- The first shell of terminal 0 asks for a second: its checks have passed. -/
def secondShell : Outcome Stop Machine :=
  run (moveStep shellImage) (Machine.boot (fun _ => 0) (fun _ => rootShellPCB))
    (.event (.execute shellCommand zeroResidue) :: List.replicate 17 .advance ++ [.event (.execute shellCommand zeroResidue)])

/-- A tick before the page is mapped, one when the bytes are loaded, one when the second shell is current. -/
def sparingMoves : List Move :=
  .event (.schedule 0 zeroResidue) :: List.replicate 8 .advance ++ .event (.schedule 0 zeroResidue) :: List.replicate 3 .advance ++
    .event (.schedule 0 zeroResidue) :: List.replicate 5 .advance

/-- The second shell's load is reached from boot. -/
theorem secondShell_reachable :
    Reachable (moveStep shellImage) (Machine.boot (fun _ => 0) (fun _ => rootShellPCB)) secondShell.state := by
  have hok : secondShell.isOk = true := by decide +kernel
  unfold secondShell at hok ⊢
  exact Reachable.of_isOk _ hok

/-- The point the call under way on terminal 0 has reached. -/
def pointOn0 (s : Machine) : Option Point := (s.execs 0).map Exec.point

/-- A load in which the ticks go to the terminal that loads. -/
theorem load_preempted_iff_sparingMoves :
    Meets (moveStep shellImage) (SafeLoad shellImage 0) secondShell.state sparingMoves ∧
      (run (moveStep shellImage) secondShell.state sparingMoves).state.kernel.pdProg = progEntry 1 0 := by
  have hpoint : pointOn0 secondShell.state = some .mapProgPage := by decide +kernel
  obtain ⟨x, hx, hp⟩ := Option.map_eq_some_iff.mp hpoint
  have hcreates : creates secondShell.state 0 = 1 := by decide +kernel
  have hfits : ∀ x, secondShell.state.execs 0 = some x → FileFits shellImage x.fileEntry := by
    have hsome : (secondShell.state.execs 0).all (fun x => decide (FileFits shellImage x.fileEntry)) = true := by decide +kernel
    intro x hx
    rw [hx] at hsome
    exact of_decide_eq_true hsome
  have hend : (run (moveStep shellImage) secondShell.state sparingMoves).isOk = true := by decide +kernel
  have hpoint' : pointOn0 (run (moveStep shellImage) secondShell.state sparingMoves).state = some .iret := by decide +kernel
  have hcurr : (run (moveStep shellImage) secondShell.state sparingMoves).state.kernel.currTerm = 0 := by decide +kernel
  have hunder : Meets (moveStep shellImage) (UnderWay 0) secondShell.state sparingMoves := by decide +kernel
  have hspare : TicksSpare shellImage 0 secondShell.state sparingMoves := by decide +kernel
  obtain ⟨x', hx', hi⟩ := Option.map_eq_some_iff.mp hpoint'
  have h := (load_preempted_iff secondShell_reachable hx hp).2 sparingMoves _ x' (Outcome.eq_ok_of_isOk hend) hunder hx' hi hcurr
  rw [hcreates] at h
  exact h.mpr ⟨hfits x hx, Or.inr hspare⟩

/-- A tick after the first byte. -/
def tickInLoad : List Move := [.advance, .advance, .event (.schedule 0 zeroResidue)]

/-- The second byte goes to the page of the first shell. -/
theorem tickInLoad_astray :
    Reachable (moveStep shellImage) (Machine.boot (fun _ => 0) (fun _ => rootShellPCB)) secondShell.state ∧
      creates secondShell.state 0 = 1 ∧ pointOn0 secondShell.state = some .mapProgPage ∧
      ¬Meets (moveStep shellImage) (SafeLoad shellImage 0) secondShell.state (tickInLoad ++ [.advance]) := by
  have hcreates : creates secondShell.state 0 = 1 := by decide +kernel
  refine ⟨secondShell_reachable, hcreates, by decide +kernel, fun hm => ?_⟩
  have hok : (run (moveStep shellImage) secondShell.state tickInLoad).isOk = true := by decide +kernel
  have hlast := hm.append_right (Outcome.eq_ok_of_isOk hok)
  have hpoint : pointOn0 (run (moveStep shellImage) secondShell.state tickInLoad).state =
      some (.load (loadAddr + 1) [0x45, 0x4C, 0x46, 7]) := by decide +kernel
  have hcreates' : creates (run (moveStep shellImage) secondShell.state tickInLoad).state 0 = 1 := by decide +kernel
  have hcurr : (run (moveStep shellImage) secondShell.state tickInLoad).state.kernel.currTerm = 0 := by decide +kernel
  have htrans : (run (moveStep shellImage) secondShell.state tickInLoad).state.kernel.translate (loadAddr + 1) =
      some ((progEntry 0 0).base + progOff + 1) := by decide +kernel
  generalize (run (moveStep shellImage) secondShell.state tickInLoad).state = s at hlast hpoint hcreates' hcurr htrans
  obtain ⟨x, hx, hp⟩ := Option.map_eq_some_iff.mp hpoint
  obtain ⟨a, ha, hin⟩ := (hlast.1 ⟨rfl, hcurr⟩).byte x _ _ _ hx hp
  rw [htrans, Option.some.injEq] at ha
  rw [hcreates', ← ha] at hin
  revert hin
  unfold InProgPage
  decide

end ThreeTermOS
