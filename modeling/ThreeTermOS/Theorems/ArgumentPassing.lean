import ThreeTermOS.Lemmas.Tables
import ThreeTermOS.Syscalls

/-!
# Passing arguments

`get_args_fname` takes a command apart into the name of a file and the text after it. The text goes into the process control block
of the program started, and stays there until the process ends, whatever is executed, halted or scheduled in between.
-/

namespace ThreeTermOS

open Bytes Chain Runs

/-- A command with arguments, as it lies in memory: spaces, a word, spaces, a text that starts at the first character that is no
space, a character that ends it, and whatever follows. -/
structure ArgCommand where
  leading : Nat
  word : List UInt8
  between : Nat
  text : List UInt8
  ending : UInt8
  rest : CPtr
  word_length : 0 < word.length ∧ word.length ≤ 31
  word_chars : ∀ c ∈ word, c ≠ 0 ∧ c ≠ 0x20 ∧ c ≠ 0x0A ∧ c ≠ 0x0D
  text_length : text.length ≤ 127
  text_chars : ∀ c ∈ text, c ≠ 0 ∧ c ≠ 0x0A ∧ c ≠ 0x0D
  text_head : ∀ c ∈ text.head?, c ≠ 0x20
  text_between : text ≠ [] → 0 < between
  ends : ending = 0 ∨ ending = 0x0A ∨ ending = 0x0D
  fits : leading + word.length + between + text.length < addressSpace

/-- The characters before the one that ends the command. -/
def ArgCommand.bytes (c : ArgCommand) : List UInt8 :=
  List.replicate c.leading 0x20 ++ (c.word ++ (List.replicate c.between 0x20 ++ c.text))

/-- The pointer to the command. -/
def ArgCommand.ptr (c : ArgCommand) : CPtr :=
  fun i => if i < c.bytes.length then c.bytes.getD i 0 else if i = c.bytes.length then c.ending else c.rest i

/-- The process ends: it is the running one, makes no other call and halts. -/
def Ends (t : Term) (n : Nat) (s : Machine) (m : Move) : Prop :=
  ∃ status r, m = .event (.halt status r) ∧ s.execs s.kernel.currTerm = none ∧ s.kernel.currPcbPtr = some (pidToPCBAddr n t)

namespace ArgumentPassingAux

open ProcessAux PreemptionAux TablesAux LibAux LaunchAux FileDescAux

/-! ### Taking a command apart -/

/-- A list that stops the predicate at once loses nothing. -/
theorem dropWhile_of_head {α : Type} {q : α → Bool} {l : List α} (h : ∀ a ∈ l.head?, q a = false) : l.dropWhile q = l := by
  cases l with
  | nil => rfl
  | cons a l => exact List.dropWhile_cons_of_neg (by rw [h a rfl]; decide)

/-- What satisfies the predicate is taken, up to a list that stops it at once. -/
theorem takeWhile_append_of_head {α : Type} {q : α → Bool} {w l : List α} (hw : ∀ a ∈ w, q a = true)
    (h : ∀ a ∈ l.head?, q a = false) : (w ++ l).takeWhile q = w := by
  rw [List.takeWhile_append_of_pos hw]
  cases l with
  | nil => rw [List.takeWhile_nil, List.append_nil]
  | cons a l => rw [List.takeWhile_cons_of_neg (by rw [h a rfl]; decide), List.append_nil]

theorem bytes_length (c : ArgCommand) : c.bytes.length = c.leading + c.word.length + c.between + c.text.length := by
  unfold ArgCommand.bytes
  rw [List.length_append, List.length_append, List.length_append, List.length_replicate, List.length_replicate]
  omega

theorem bytes_ne_zero (c : ArgCommand) : ∀ b ∈ c.bytes, b ≠ 0 := by
  intro b hb
  have hspace : ∀ n, b ∈ List.replicate n (0x20 : UInt8) → b ≠ 0 := by
    intro n hmem
    rw [(List.mem_replicate.mp hmem).2]
    decide
  unfold ArgCommand.bytes at hb
  rw [List.mem_append, List.mem_append, List.mem_append] at hb
  rcases hb with hb | hb | hb | hb
  · exact hspace _ hb
  · exact (c.word_chars b hb).1
  · exact hspace _ hb
  · exact (c.text_chars b hb).1

/-- What the kernel reads of a command: its characters, and then nothing or a line end with whatever follows. -/
theorem strcpyBytes_ptr (c : ArgCommand) :
    ∃ tail, strcpyBytes c.ptr = c.bytes ++ tail ∧ ∀ e ∈ tail.head?, e = 0x0A ∨ e = 0x0D := by
  have hfits := c.fits
  have hlength := bytes_length c
  have hptr : ∀ j < c.bytes.length, c.ptr j = cstr c.bytes j := fun j hj => if_pos hj
  have hend : c.ptr c.bytes.length = c.ending := by
    unfold ArgCommand.ptr
    rw [if_neg (Nat.lt_irrefl _), if_pos rfl]
  have hle : c.bytes.length ≤ strlen c.ptr := by
    refine le_strlen (fun j hj => ?_) (by omega)
    rw [hptr j hj]
    exact cstr_ne_zero (bytes_ne_zero c) hj
  have hhead : slice c.ptr 0 c.bytes.length = c.bytes := by
    apply List.ext_getElem?
    intro i
    rw [slice_getElem?]
    by_cases hi : i < c.bytes.length
    · rw [if_pos hi, Nat.zero_add, hptr i hi, cstr_of_lt hi, List.getElem?_eq_getElem hi]
    · rw [if_neg hi, List.getElem?_eq_none (Nat.le_of_not_lt hi)]
  obtain ⟨n, hn⟩ := Nat.exists_eq_add_of_le hle
  refine ⟨slice c.ptr c.bytes.length n, ?_, ?_⟩
  · rw [strcpyBytes, hn, slice_add, hhead, Nat.zero_add]
  · intro e he
    cases n with
    | zero => cases he
    | succ n =>
      -- the ending is no terminator, or the string would end there
      have hne : c.ending ≠ 0 := by
        intro hzero
        have hlen := strlen_le (hend.trans hzero)
        omega
      rw [slice, List.head?_cons, Option.mem_some_iff, hend] at he
      rw [← he]
      exact c.ends.resolve_left hne

/-- The tokenizer finds the word and the text. -/
theorem getArgsFname_ptr (c : ArgCommand) (r : Residue) :
    SameString (cstr c.word) (getArgsFname c.ptr r).1 ∧ (getArgsFname c.ptr r).2 = c.text := by
  obtain ⟨tail, hbytes, htail⟩ := strcpyBytes_ptr c
  have hword := c.word_length
  have htext := c.text_length
  -- what follows the word
  have hafter : ∀ e ∈ (List.replicate c.between 0x20 ++ (c.text ++ tail)).head?, endsWord e = true := by
    intro e he
    cases hb : c.between with
    | zero =>
      have hnone : c.text = [] := by
        by_contra hne
        have hpos := c.text_between hne
        omega
      rw [hb, hnone, List.replicate_zero, List.nil_append, List.nil_append] at he
      rcases htail e he with rfl | rfl
      · decide
      · decide
    | succ n =>
      rw [hb, List.replicate_succ, List.cons_append, List.head?_cons, Option.mem_some_iff] at he
      rw [← he]
      decide
  have hlead : (strcpyBytes c.ptr).dropWhile (fun b => b = 0x20) =
      c.word ++ (List.replicate c.between 0x20 ++ (c.text ++ tail)) := by
    rw [hbytes, ArgCommand.bytes, List.append_assoc, List.append_assoc, List.append_assoc,
      List.dropWhile_append_of_pos (fun b hb => by rw [(List.mem_replicate.mp hb).2]; decide)]
    apply dropWhile_of_head
    intro b hb
    rw [List.head?_append_of_ne_nil _ (List.ne_nil_of_length_pos hword.1)] at hb
    exact decide_eq_false (c.word_chars b (List.mem_of_mem_head? hb)).2.1
  have hname : ((c.word ++ (List.replicate c.between 0x20 ++ (c.text ++ tail))).takeWhile (fun b => !endsWord b)).take fileNameCharmax =
      c.word := by
    rw [takeWhile_append_of_head, List.take_of_length_le]
    · unfold fileNameCharmax
      omega
    · intro b hb
      obtain ⟨-, h1, h2, h3⟩ := c.word_chars b hb
      simp [endsWord, h1, h2, h3]
    · intro e he
      rw [hafter e he]
      rfl
  have hargs : ((c.text ++ tail).takeWhile (fun b => !(b = 0x0A || b = 0x0D))).take lineBufferSize = c.text := by
    rw [takeWhile_append_of_head, List.take_of_length_le]
    · unfold lineBufferSize
      omega
    · intro b hb
      obtain ⟨-, h1, h2⟩ := c.text_chars b hb
      simp [h1, h2]
    · intro e he
      rcases htail e he with rfl | rfl
      · decide
      · decide
  have hgap : (List.replicate c.between 0x20 ++ (c.text ++ tail)).dropWhile (fun b => b = 0x20) = c.text ++ tail := by
    rw [List.dropWhile_append_of_pos (fun b hb => by rw [(List.mem_replicate.mp hb).2]; decide)]
    apply dropWhile_of_head
    intro b hb
    cases ht : c.text with
    | nil =>
      rw [ht, List.nil_append] at hb
      rcases htail b hb with rfl | rfl
      · decide
      · decide
    | cons a l =>
      rw [ht, List.cons_append, List.head?_cons, Option.mem_some_iff] at hb
      refine decide_eq_false (c.text_head b ?_)
      rw [ht, ← hb]
      rfl
  unfold getArgsFname
  dsimp only
  rw [hlead, hname, List.drop_left, hgap, hargs]
  refine ⟨⟨c.word.length, cstr_of_le (Nat.le_refl _), fun j hj => ?_⟩, rfl⟩
  have hfits : ¬(j = 0 ∧ c.text.length = lineBufferSize) := by
    unfold lineBufferSize
    omega
  refine (if_neg hfits).trans ?_
  rcases Nat.lt_or_eq_of_le hj with hlt | rfl
  · exact if_pos hlt
  · have hmax : c.word.length < fileNameCharmax := by
      unfold fileNameCharmax
      omega
    exact (if_neg (Nat.lt_irrefl _)).trans ((if_pos ⟨rfl, hmax⟩).trans (cstr_of_le (Nat.le_refl _)).symm)

/-! ### The arguments of one process -/

variable {s s' : Machine} {img : Image} {m : Move} {t : Term} {n : Nat} {text : List UInt8}

/-- The arguments on their way: they are those of the call under way that launches process `n` of terminal `t`, until its process
control block is filled in; from then on they are in that, and stay there when `next_p_id` counts the process. -/
def Carried (t : Term) (n : Nat) (text : List UInt8) (s : Machine) : Prop :=
  (∃ x, s.execs t = some x ∧ x.point.launching = 1 ∧ s.kernel.nextPId t = n ∧
      (x.point.unfilled = true → x.args = text) ∧ (x.point.unfilled = false → (s.kernel.pcbs (pcbAt t n)).args = text)) ∨
    (n < s.kernel.nextPId t ∧ (s.kernel.pcbs (pcbAt t n)).args = text)

theorem bound_of_carried (h : MachineInv s) (hc : Carried t n text s) : n < maxProgs := by
  have hbound := (h.terms t).bound
  rcases hc with ⟨x, hx, hone, hn, -⟩ | ⟨hn, -⟩
  · have hle := x.point.launching_le
    rw [hx, weight_some] at hbound
    omega
  · omega

/-- A step that leaves the terminal's part of the tables carries the arguments on. -/
theorem carried_congr (hc : Carried t n text s) (hexec : s'.execs t = s.execs t) (hnext : s'.kernel.nextPId t = s.kernel.nextPId t)
    (hargs : (s'.kernel.pcbs (pcbAt t n)).args = (s.kernel.pcbs (pcbAt t n)).args) : Carried t n text s' := by
  unfold Carried
  rw [hexec, hnext, hargs]
  exact hc

/-- A step of the launching call itself, or of a later call of the same terminal. -/
theorem carried_advance_self {y : Exec} (h : MachineInv s) (hc : Carried s.kernel.currTerm n text s)
    (hy : s.execs s.kernel.currTerm = some y) (hs : advance img s y = .ok s') : Carried s.kernel.currTerm n text s' := by
  have hgoto : ∀ k p, (s.goto y k p).execs s.kernel.currTerm = some { y with point := p } := fun k p => Function.update_self _ _ _
  have hbound := (h.terms s.kernel.currTerm).bound
  rw [hy, weight_some] at hbound
  rcases advance_cases hs with ⟨k, p, rfl, hnext, hargs, -, hlaunching, hfill⟩ | ⟨hp, rfl⟩ | ⟨kb, hp, rfl⟩ | ⟨hp, rfl⟩
  · rcases hc with ⟨x, hx, hone, hn, hcall, hblock⟩ | ⟨hn, htext⟩
    · rw [hy, Option.some.injEq] at hx
      subst hx
      refine Or.inl ⟨_, hgoto k p, hlaunching.trans hone, (congrFun hnext _).trans hn, fun hf => hcall (hfill ▸ hf), fun hf => ?_⟩
      exact (hargs _).trans (hblock (hfill ▸ hf))
    · refine Or.inr ⟨?_, (hargs _).trans htext⟩
      have hsame := congrFun hnext s.kernel.currTerm
      exact hsame ▸ hn
  · -- the new process control block is filled in
    have hkernel := args_pcbInit img s.kernel (pcbAt s.kernel.currTerm (s.kernel.nextPId s.kernel.currTerm))
      (pcbAt s.kernel.currTerm n) y.args y.fileEntry
    rcases hc with ⟨x, hx, hone, hn, hcall, hblock⟩ | ⟨hn, htext⟩
    · rw [hy, Option.some.injEq] at hx
      subst hx
      rw [hn, if_pos rfl] at hkernel
      refine Or.inl ⟨_, hgoto _ _, rfl, ?_, nofun, fun _ => ?_⟩
      · rw [Machine.goto, pcbInit_eq]
        exact hn
      · rw [hn]
        exact hkernel.trans (hcall (by rw [hp]; rfl))
    · rw [hp, show Point.uncounted .pcbInit = 1 from rfl] at hbound
      rw [if_neg (pcbAt_ne_of_pid (by omega) (by omega) (by omega))] at hkernel
      refine Or.inr ⟨?_, hkernel.trans htext⟩
      rw [Machine.goto, pcbInit_eq]
      exact hn
  · -- the new process is counted
    have hcount : (s.goto y (incrNextPId s.kernel) (.setActive kb)).kernel.nextPId s.kernel.currTerm =
        s.kernel.nextPId s.kernel.currTerm + 1 := Function.update_self _ _ _
    rcases hc with ⟨x, hx, -, hn, -, hblock⟩ | ⟨hn, htext⟩
    · rw [hy, Option.some.injEq] at hx
      subst hx
      exact Or.inr ⟨by rw [hcount]; omega, hblock (by rw [hp]; rfl)⟩
    · exact Or.inr ⟨by rw [hcount]; omega, htext⟩
  · rcases hc with ⟨x, hx, hone, -⟩ | hrun
    · rw [hy, Option.some.injEq] at hx
      subst hx
      rw [hp] at hone
      cases hone
    · exact Or.inr hrun

/-- A step of another terminal's call. -/
theorem carried_advance_other {y : Exec} (h : MachineInv s) (hc : Carried t n text s) (hy : s.execs s.kernel.currTerm = some y)
    (hs : advance img s y = .ok s') (ht : t ≠ s.kernel.currTerm) : Carried t n text s' := by
  have hsp := advance_spares hs ht
  refine carried_congr hc hsp.exec hsp.next ?_
  have hn := bound_of_carried h hc
  have hbound := (h.terms s.kernel.currTerm).bound
  rw [hy, weight_some] at hbound
  rcases advance_cases hs with ⟨k, p, rfl, -, hargs, -⟩ | ⟨hp, rfl⟩ | ⟨kb, -, rfl⟩ | ⟨-, rfl⟩
  · exact hargs _
  · rw [hp, show Point.uncounted .pcbInit = 1 from rfl] at hbound
    exact (args_pcbInit img s.kernel _ _ y.args y.fileEntry).trans (if_neg (pcbAt_ne_of_term hn (by omega) ht))
  · rfl
  · rfl

/-- Every move carries the arguments on, but for the process's own end. -/
theorem carried_step (h : MachineInv s) (hc : Carried t n text s) (hlive : ¬Ends t n s m) (hs : moveStep img s m = .ok s') :
    Carried t n text s' := by
  cases tableStep_moveStep h hs with
  | keep _ next total execs args retval => exact carried_congr hc (by rw [execs]) (by rw [next]) (args _)
  | advance y under hadvance =>
    by_cases ht : t = s.kernel.currTerm
    · subst ht
      exact carried_advance_self h hc under hadvance
    · exact carried_advance_other h hc under hadvance ht
  | begin command r d idle check kernel execs =>
    by_cases ht : t = s.kernel.currTerm
    · rcases hc with ⟨x, hx, -⟩ | hrun
      · rw [ht, idle] at hx
        cases hx
      · unfold Carried
        rw [kernel]
        exact Or.inr hrun
    · exact carried_congr hc (by rw [execs, Function.update_of_ne ht]) (by rw [kernel]) (by rw [kernel])
  | pop status r n' idle top two next total execs args retval =>
    by_cases ht : t = s.kernel.currTerm
    · rcases hc with ⟨x, hx, -⟩ | ⟨hn, htext⟩
      · rw [ht, idle] at hx
        cases hx
      · refine Or.inr ⟨?_, (args _).trans htext⟩
        have hne : n ≠ n' + 1 := by
          rintro rfl
          exact hlive ⟨status, r, rfl, idle, by rw [top, ht]; rfl⟩
        rw [ht, two] at hn
        rw [next, ht, Function.update_self]
        omega
    · exact carried_congr hc (by rw [execs]) (by rw [next, Function.update_of_ne ht]) (args _)
  | restart status r x idle top one next total execs point args retval =>
    by_cases ht : t = s.kernel.currTerm
    · rcases hc with ⟨y, hy, -⟩ | ⟨hn, htext⟩
      · rw [ht, idle] at hy
        cases hy
      · rw [ht, one] at hn
        obtain rfl : n = 0 := by omega
        exact absurd ⟨status, r, rfl, idle, by rw [top, ht]; rfl⟩ hlive
    · exact carried_congr hc (by rw [execs, Function.update_of_ne ht]) (by rw [next, Function.update_of_ne ht]) (args _)
  | again r y x d under waits check next total execs point args retval =>
    by_cases ht : t = s.kernel.currTerm
    · rcases hc with ⟨z, hz, hone, -⟩ | ⟨hn, htext⟩
      · -- nothing is launched before the checks
        rw [ht, under, Option.some.injEq] at hz
        rw [← hz, waits] at hone
        cases hone
      · exact Or.inr ⟨by rw [next]; exact hn, (args _).trans htext⟩
    · exact carried_congr hc (by rw [execs, Function.update_of_ne ht]) (by rw [next]) (args _)
  | launch _ dest opens unused idle next total execs args retval =>
    have hn := bound_of_carried h hc
    by_cases ht : t = dest
    · rcases hc with ⟨x, hx, -⟩ | ⟨hn, -⟩
      · rw [ht, idle] at hx
        cases hx
      · rw [ht, unused] at hn
        exact absurd hn (Nat.not_lt_zero n)
    · exact carried_congr hc (by rw [execs]) (by rw [next, Function.update_of_ne ht])
        (args _ (pcbAt_ne_of_term hn (by decide) ht))

/-- A run in which the process does not end carries its arguments on. -/
theorem carried_run (h : MachineInv s) (hc : Carried t n text s) {moves : List Move}
    (hlive : Meets (moveStep img) (fun s m => ¬Ends t n s m) s moves) (hs : run (moveStep img) s moves = .ok s') :
    MachineInv s' ∧ Carried t n text s' :=
  run_invariant_of_meets (I := fun s => MachineInv s ∧ Carried t n text s)
    (fun _ _ _ hI hG hstep => ⟨(machineInv_moveStep hI.1 hstep).1, carried_step hI.1 hI.2 hG hstep⟩) ⟨h, hc⟩ hlive hs

/-- The running process, with no call of its own under way, has the arguments carried for it. -/
theorem args_of_carried (h : MachineInv s) (hc : Carried t n text s) (hcurr : s.kernel.currPcbPtr = some (pcbAt t n))
    (hidle : s.execs s.kernel.currTerm = none) : (s.kernel.pcbs (pcbAt t n)).args = text := by
  have hn := bound_of_carried h hc
  have hterm := h.terms s.kernel.currTerm
  rw [hidle, topPtr_self] at hterm
  have htop := termOk_none hterm
  have hbound := hterm.bound
  rw [weight_none] at hbound
  rcases hc with ⟨x, hx, -⟩ | ⟨-, htext⟩
  · -- a terminal with a call under way is not the one that runs
    cases hnext : s.kernel.nextPId s.kernel.currTerm with
    | zero =>
      rw [hcurr, hnext, top_zero] at htop
      cases htop
    | succ p =>
      rw [hcurr, hnext, top_succ, Option.some.injEq] at htop
      obtain ⟨rfl, -⟩ := pcbAt_inj hn (by omega) htop
      rw [hidle] at hx
      cases hx
  · exact htext

/-! ### The calls of the process -/

/-- The file system calls of a process leave its arguments. -/
theorem args_callStep {σ : Type} {dev : Devices σ} {k k' : PCB × σ} {c : Call} (hs : callStep img dev k c = .ok k') :
    k'.1.args = k.1.args := by
  obtain ⟨out, hout, rfl⟩ := callStep_eq_ok hs
  cases c with
  | «open» filename =>
    rcases openFunc_cases hout with ⟨-, he⟩ | ⟨d, i, -, -, -, he⟩
    · rw [he]
    · rw [he]
      rfl
  | close fd =>
    rw [Call.out, Option.some.injEq] at hout
    subst hout
    unfold closeFunc
    split
    · rfl
    · cases hi : fdIndex (fd : Int) with
      | none => rfl
      | some i =>
        cases hf : (k.1.fdA i).fopsPtr with
        | none =>
          simp only [hf]
          rfl
        | some fops =>
          simp only [hf]
          cases fops <;> rfl
  | read fd buf nbytes =>
    rw [Call.out, Option.some.injEq] at hout
    subst hout
    rcases readFunc_pcb img dev k.2 k.1 fd buf nbytes with he | ⟨i, n, -, he⟩
    · rw [he]
    · rw [he]
      rfl
  | write fd buf nbytes =>
    rw [Call.out, Option.some.injEq] at hout
    subst hout
    rw [writeFunc_pcb]

end ArgumentPassingAux

open ArgumentPassingAux PreemptionAux TablesAux LaunchAux LibAux in
/-- A program started with a command gets its arguments. The file looked up is the one whose name is the word; and from the launch
on, as long as the process does not end, whenever it runs, whatever file system calls it has made, `getargs_func` stores the text
with its terminator and returns 0. Anything may happen in between, ticks between any two steps of `execute_func` included. -/
theorem getargs_returns_text (img : Image) (m : CPtr) (p : Addr → PCB) {s s₁ s₂ : Machine}
    (hr : Reachable (moveStep img) (Machine.boot m p) s) (c : ArgCommand) (r : Residue) {x : Exec}
    (hbegin : moveStep img s (.event (.execute c.ptr r)) = .ok s₁) (hidle : s.execs s.kernel.currTerm = none)
    (hx : s₁.execs s.kernel.currTerm = some x) {moves : List Move} (hrun : run (moveStep img) s₁ moves = .ok s₂)
    (hlive : Meets (moveStep img) (fun s' m' => ¬Ends s.kernel.currTerm (s.kernel.nextPId s.kernel.currTerm) s' m') s₁ moves)
    (hcurr : s₂.kernel.currPcbPtr = some (pidToPCBAddr (s.kernel.nextPId s.kernel.currTerm) s.kernel.currTerm))
    (hcall : s₂.execs s₂.kernel.currTerm = none) :
    readDentryByName img (cstr c.word) = some x.fileEntry ∧
      ∀ (σ : Type) (dev : Devices σ) (d : σ) (calls : List Call) (q : PCB) (d' : σ),
        run (callStep img dev)
          (s₂.kernel.pcbs (pidToPCBAddr (s.kernel.nextPId s.kernel.currTerm) s.kernel.currTerm), d) calls = .ok (q, d') →
        ∀ nbytes, getargsFunc q true nbytes = (0, c.text ++ [0]) := by
  have hinv := machineInv_reachable hr
  have hinv₁ := (machineInv_moveStep hinv hbegin).1
  obtain ⟨hname, hargs⟩ := getArgsFname_ptr c r
  cases tableStep_moveStep hinv hbegin with
  | keep _ next total execs args retval =>
    rw [execs, hidle] at hx
    cases hx
  | launch _ dest opens unused idle next total execs args retval =>
    rw [execs, hidle] at hx
    cases hx
  | begin command r d idle check kernel execs =>
    rw [execs, Function.update_self, Option.some.injEq] at hx
    have hpoint : x.point = .mapProgPage := by rw [← hx]
    have htext : x.args = c.text := by rw [← hx, hargs]
    have hfile : d = x.fileEntry := by rw [← hx]
    have hentry := entry_of_checkFile (checkFile_of_checkExecute check).2
    rw [readDentryByName_congr hname, hfile] at hentry
    refine ⟨hentry, ?_⟩
    rw [hx] at execs
    have hcarried : Carried s.kernel.currTerm (s.kernel.nextPId s.kernel.currTerm) c.text s₁ := by
      refine Or.inl ⟨x, ?_, ?_, ?_, fun _ => htext, ?_⟩
      · rw [execs, Function.update_self]
      · rw [hpoint]
        rfl
      · rw [kernel]
      · rw [hpoint]
        nofun
    obtain ⟨hinv₂, hcarried₂⟩ := carried_run hinv₁ hcarried hlive hrun
    have hblock := args_of_carried hinv₂ hcarried₂ hcurr hcall
    intro σ dev d calls q d' hcalls nbytes
    have hq : q.args = c.text := run_invariant (I := fun k => k.1.args = c.text)
      (fun k e k' hk hstep => (args_callStep hstep).trans hk) hblock hcalls
    have hfits : c.text.length < addressSpace := Nat.lt_of_le_of_lt c.text_length (by decide)
    have hcopy := strcpyBytes_cstr (fun b hb => (c.text_chars b hb).1) hfits
    unfold getargsFunc
    rw [if_neg (by decide), hq, hcopy]

/-- ` shell  -a b` and a line feed. -/
def shellWithText : ArgCommand where
  leading := 1
  word := ascii "shell"
  between := 2
  text := ascii "-a b"
  ending := 0x0A
  rest := fun _ => 0
  word_length := by decide
  word_chars := by decide +kernel
  text_length := by decide
  text_chars := by decide +kernel
  text_head := by decide +kernel
  text_between := by decide
  ends := by decide
  fits := by decide

/-- A move that is no call of `halt_func`. -/
def Move.goesOn : Move → Bool
  | .event (.halt _ _) => false
  | _ => true

/-- The first shell runs. -/
def shellRuns : Outcome Stop Machine := run (moveStep shellImage) bootMachine launchMoves

/-- It calls `execute_func` with the arguments. -/
def shellCalls : Outcome Stop Machine := moveStep shellImage shellRuns.state (.event (.execute shellWithText.ptr zeroResidue))

/-- The second shell is launched, and so is one on terminal 1; then the second shell runs again. -/
def movesBetween : List Move :=
  List.replicate 17 .advance ++ [.event (.switchTerminals 1 zeroResidue), .event (.schedule 0 zeroResidue)]

def secondRuns : Outcome Stop Machine := run (moveStep shellImage) shellCalls.state movesBetween

theorem getargs_returns_text_secondShell :
    getargsFunc (secondRuns.state.kernel.pcbs (pidToPCBAddr 1 0)) true 16 = (0, ascii "-a b" ++ [0]) := by
  have hok : shellRuns.isOk = true := by decide +kernel
  have hr : Reachable (moveStep shellImage) bootMachine shellRuns.state := by
    unfold shellRuns at hok ⊢
    exact Reachable.of_isOk _ hok
  have hterm : shellRuns.state.kernel.currTerm = 0 := by decide +kernel
  have hnext : shellRuns.state.kernel.nextPId 0 = 1 := by decide +kernel
  have hidle : (shellRuns.state.execs 0).isNone = true := by decide +kernel
  have hcalls : shellCalls.isOk = true := by decide +kernel
  have hbegin : moveStep shellImage shellRuns.state (.event (.execute shellWithText.ptr zeroResidue)) = .ok shellCalls.state :=
    Outcome.eq_ok_of_isOk hcalls
  have hsome : (shellCalls.state.execs 0).isSome = true := by decide +kernel
  have hruns : secondRuns.isOk = true := by decide +kernel
  have hrun : run (moveStep shellImage) shellCalls.state movesBetween = .ok secondRuns.state := Outcome.eq_ok_of_isOk hruns
  have hgoes : Meets (moveStep shellImage) (fun _ m => m.goesOn = true) shellCalls.state movesBetween := by decide +kernel
  have hcurr : secondRuns.state.kernel.currPcbPtr = some (pidToPCBAddr 1 0) := by decide +kernel
  have hcall : (secondRuns.state.execs secondRuns.state.kernel.currTerm).isNone = true := by decide +kernel
  generalize secondRuns.state = s₂ at hrun hcurr hcall ⊢
  generalize shellCalls.state = s₁ at hbegin hsome hrun hgoes
  generalize shellRuns.state = s at hr hterm hnext hidle hbegin
  obtain ⟨x, hx⟩ := Option.isSome_iff_exists.mp hsome
  have hends : ∀ (s : Machine) (m : Move), True → m.goesOn = true → ¬Ends 0 1 s m := by
    rintro s m - hm ⟨status, r, rfl, -⟩
    cases hm
  have hlive : Meets (moveStep shellImage) (fun s m => ¬Ends 0 1 s m) s₁ movesBetween :=
    Meets.of_invariant (fun _ _ _ _ _ _ => trivial) hends trivial hgoes
  rw [← hnext, ← hterm] at hlive hcurr
  have htext := getargs_returns_text shellImage _ _ hr shellWithText zeroResidue hbegin
    (by rw [hterm]; exact Option.isNone_iff_eq_none.mp hidle) (by rw [hterm]; exact hx) hrun hlive hcurr
    (Option.isNone_iff_eq_none.mp hcall)
  rw [hterm, hnext] at htext
  exact htext.2 Unit quietDevices () [] _ () rfl 16

end ThreeTermOS
