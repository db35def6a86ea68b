import PuttyNd.Telnet.Stream
import PuttyNd.Telnet.Proofs.StreamProofs

/-!
# Proofs: option negotiation

Each function is described by the commands it sends and by what it keeps. The number of commands is bounded by
a potential, which pays for the commands that an answer may cause.
-/

namespace PuttyNd.Telnet

open Transducer (Reads)
open TelnetTag

variable {s t u : TelnetTag} {cmds cmds' : List (UInt8 × UInt8)} {o : Opt} {enabled : Bool}

/-! ## What is sent -/

/-- From one state to the other these commands are sent. -/
def Commands (s t : TelnetTag) (cmds : List (UInt8 × UInt8)) : Prop :=
  ∃ wire, t.sent = s.sent ++ wire ∧ Reads commandStep .topLevel wire cmds .topLevel

theorem Commands.none (h : t.sent = s.sent) : Commands s t [] :=
  ⟨[], by rw [h, List.append_nil], .nil _⟩

theorem Commands.trans (h : Commands s t cmds) (h' : Commands t u cmds') : Commands s u (cmds ++ cmds') := by
  obtain ⟨wire, hsent, hreads⟩ := h
  obtain ⟨wire', hsent', hreads'⟩ := h'
  exact ⟨wire ++ wire', by rw [hsent', hsent, List.append_assoc], hreads.append hreads'⟩

theorem Commands.after (h : Commands s t []) (h' : Commands t u cmds) : Commands s u cmds := h.trans h'

theorem Commands.before (h : Commands s t cmds) (h' : u.sent = t.sent) : Commands s u cmds := by
  have hall := h.trans (.none h')
  rwa [List.append_nil] at hall

def IsCommand (cmd : UInt8) : Prop := cmd = WILL ∨ cmd = WONT ∨ cmd = DO ∨ cmd = DONT

instance (cmd : UInt8) : Decidable (IsCommand cmd) :=
  inferInstanceAs (Decidable (cmd = WILL ∨ cmd = WONT ∨ cmd = DO ∨ cmd = DONT))

theorem commands_sendOpt {cmd : UInt8} (h : IsCommand cmd) (option : UInt8) :
    Commands s (s.sendOpt cmd option) [(cmd, option)] := by
  refine ⟨[IAC, cmd, option], rfl, ?_⟩
  rcases h with rfl | rfl | rfl | rfl
  · rfl
  · rfl
  · rfl
  · rfl

/-- A sound body is read to its end. -/
theorem commandReads_body {body : List UInt8} (h : Sound body) :
    Reads commandStep .subnegot body [] .subnegot := by
  induction body using Sound.induct with
  | case1 => exact .nil _
  | case2 c =>
    have hc : c ≠ IAC := h
    exact Reads.silent (by simp [commandStep, hc]) (.nil _)
  | case3 d body ih =>
    unfold Sound at h
    rw [if_pos rfl] at h
    refine Reads.silent rfl ?_
    exact Reads.silent (by simp [commandStep, h.1]) (ih h.2)
  | case4 c d body hc ih =>
    unfold Sound at h
    rw [if_neg hc] at h
    exact Reads.silent (by simp [commandStep, hc]) (ih h)

theorem commands_telnetSize (width height : ℤ) : Commands s (s.telnetSize width height) [] := by
  unfold telnetSize
  dsimp only
  by_cases hnaws : s.optStates .naws ≠ .active
  · rw [if_pos hnaws]
    exact .none rfl
  · rw [if_neg hnaws]
    have hbody := (((sizeByte_sound (width >>> (8 : ℕ))).append (sizeByte_sound width)).append
      (sizeByte_sound (height >>> (8 : ℕ)))).append (sizeByte_sound height)
    refine ⟨_, rfl, ?_⟩
    have hhead : Reads commandStep .topLevel [IAC, SB, TELOPT_NAWS] [] .subnegot := rfl
    have htail : Reads commandStep .subnegot [IAC, SE] [] .topLevel := rfl
    simpa only [List.append_assoc, List.nil_append] using
      (hhead.append (commandReads_body hbody)).append htail

theorem isCommand_opts : ∀ o ∈ opts, IsCommand o.send ∧ IsCommand o.nsend := by decide

/-- The command that an option is not wanted any more -/
def deactivation (s : TelnetTag) (o : Opt) : List (UInt8 × UInt8) :=
  if s.optStates o.index = .requested ∨ s.optStates o.index = .active then [(o.nsend, o.option)] else []

theorem commands_deactivateOption (ho : o ∈ opts) : Commands s (s.deactivateOption o) (deactivation s o) := by
  unfold deactivateOption deactivation
  dsimp only
  by_cases hst : s.optStates o.index = .requested ∨ s.optStates o.index = .active
  · rw [if_pos hst, if_pos hst]
    exact (commands_sendOpt (isCommand_opts o ho).2 _).before rfl
  · rw [if_neg hst, if_neg hst]
    exact .none rfl

theorem commands_ensureOption (ho : o ∈ opts) : Commands s (s.ensureOption o)
    (if s.optStates o.index = .inactive then [(o.send, o.option)] else []) := by
  unfold ensureOption
  by_cases hst : s.optStates o.index = .inactive
  · rw [if_pos hst, if_pos hst]
    have hset : Commands s (s.setOpt o.index .requested) [] := .none rfl
    exact hset.after (commands_sendOpt (isCommand_opts o ho).1 _)
  · rw [if_neg hst, if_neg hst]
    exact .none rfl

theorem ensureOption_of_ne {i : OptIndex} (hi : i ≠ o.index) :
    (s.ensureOption o).optStates i = s.optStates i := by
  unfold ensureOption
  by_cases hst : s.optStates o.index = .inactive
  · rw [if_pos hst]
    exact setOpt_of_ne hi _
  · rw [if_neg hst]

/-- An option that was asked for is neither active nor inactive. -/
theorem ensureOption_self : (s.ensureOption o).optStates o.index =
    if s.optStates o.index = .inactive then .requested else s.optStates o.index := by
  unfold ensureOption
  by_cases hst : s.optStates o.index = .inactive
  · rw [if_pos hst, if_pos hst]
    exact setOpt_self _ _
  · rw [if_neg hst, if_neg hst]

/-! ## Side effects -/

theorem agrees_requested (mode : Bool) : Agrees .requested mode :=
  ⟨fun h => (nomatch h), fun h => (nomatch h)⟩

theorem agrees_switched (enabled : Bool) : Agrees (if enabled then .active else .inactive) !enabled := by
  cases enabled with
  | true => exact ⟨fun _ => rfl, fun h => (nomatch h)⟩
  | false => exact ⟨fun h => (nomatch h), fun _ => rfl⟩

/-- The mode after an option was settled -/
def setMode (s : TelnetTag) (o : Opt) (enabled : Bool) : TelnetTag :=
  if o.option = TELOPT_ECHO ∧ o.send = DO then { s with echoing := !enabled }
  else if o.option = TELOPT_SGA ∧ o.send = DO then { s with editing := !enabled }
  else s

theorem setMode_cases : ∀ o ∈ opts, ((o.option = TELOPT_ECHO ∧ o.send = DO) ↔ o = oEcho) ∧
    ((o.option = TELOPT_SGA ∧ o.send = DO) ↔ o = oTheySga) := by decide

theorem setMode_echo : setMode s oEcho enabled = { s with echoing := !enabled } := rfl

theorem setMode_sga : setMode s oTheySga enabled = { s with editing := !enabled } := rfl

theorem setMode_other (ho : o ∈ opts) (hecho : o ≠ oEcho) (hsga : o ≠ oTheySga) : setMode s o enabled = s := by
  obtain ⟨h, h'⟩ := setMode_cases o ho
  unfold setMode
  rw [if_neg (mt h.mp hecho), if_neg (mt h'.mp hsga)]

/-- The options that must be there are asked for. -/
def ensureAll (s : TelnetTag) : TelnetTag := ((s.ensureOption oEcho).ensureOption oWeSga).ensureOption oTheySga

theorem optionSideEffects_eq : s.optionSideEffects o enabled =
    if (setMode s o enabled).activated then setMode s o enabled
    else { ensureAll (setMode s o enabled) with activated := true } := rfl

theorem ensureOption_mode : (s.ensureOption o).echoing = s.echoing ∧ (s.ensureOption o).editing = s.editing := by
  unfold ensureOption
  by_cases hst : s.optStates o.index = .inactive
  · rw [if_pos hst]
    exact ⟨rfl, rfl⟩
  · rw [if_neg hst]
    exact ⟨rfl, rfl⟩

theorem ensureAll_mode : (ensureAll s).echoing = s.echoing ∧ (ensureAll s).editing = s.editing :=
  ⟨(ensureOption_mode.1.trans ensureOption_mode.1).trans ensureOption_mode.1,
    (ensureOption_mode.2.trans ensureOption_mode.2).trans ensureOption_mode.2⟩

theorem ensureAll_of_ne {i : OptIndex} (hecho : i ≠ .echo) (hwe : i ≠ .weSga) (hthey : i ≠ .theySga) :
    (ensureAll s).optStates i = s.optStates i :=
  ((ensureOption_of_ne hthey).trans (ensureOption_of_ne hwe)).trans (ensureOption_of_ne hecho)

theorem ensureAll_echo : (ensureAll s).optStates .echo =
    if s.optStates .echo = .inactive then .requested else s.optStates .echo :=
  ((ensureOption_of_ne (by decide)).trans (ensureOption_of_ne (by decide))).trans ensureOption_self

theorem ensureAll_sga : (ensureAll s).optStates .theySga =
    if s.optStates .theySga = .inactive then .requested else s.optStates .theySga := by
  have hsame : ((s.ensureOption oEcho).ensureOption oWeSga).optStates .theySga = s.optStates .theySga :=
    (ensureOption_of_ne (by decide)).trans (ensureOption_of_ne (by decide))
  have hself := ensureOption_self (s := (s.ensureOption oEcho).ensureOption oWeSga) (o := oTheySga)
  rw [show oTheySga.index = .theySga from rfl, hsame] at hself
  exact hself

theorem Agrees.ensured {st : OptState} {mode : Bool} (h : Agrees st mode) :
    Agrees (if st = .inactive then .requested else st) mode := by
  by_cases hst : st = .inactive
  · rw [if_pos hst]
    exact agrees_requested mode
  · rw [if_neg hst]
    exact h

/-- What is asked for is ECHO, if it is inactive, or SGA. -/
theorem commands_ensureAll : ∃ cmds, Commands s (ensureAll s) cmds ∧ cmds.length ≤ 3 ∧
    ∀ c ∈ cmds, c.2 = TELOPT_ECHO ∧ s.optStates .echo = .inactive ∨ c.2 = TELOPT_SGA := by
  have hechoCmds := commands_ensureOption (s := s) (o := oEcho) (by decide)
  have hweCmds := commands_ensureOption (s := s.ensureOption oEcho) (o := oWeSga) (by decide)
  have htheyCmds := commands_ensureOption (s := (s.ensureOption oEcho).ensureOption oWeSga) (o := oTheySga)
    (by decide)
  refine ⟨_, (hechoCmds.trans hweCmds).trans htheyCmds, ?_, ?_⟩
  · have hone : ∀ {p : Prop} [Decidable p] {c : UInt8 × UInt8}, (if p then [c] else []).length ≤ 1 := by
      intro p _ c
      by_cases hp : p
      · rw [if_pos hp]
        exact Nat.le_refl 1
      · rw [if_neg hp]
        exact Nat.zero_le 1
    rw [List.length_append, List.length_append]
    exact Nat.add_le_add (Nat.add_le_add hone hone) hone
  · intro c hc
    have hmem : ∀ {p : Prop} [Decidable p] {d : UInt8 × UInt8}, c ∈ (if p then [d] else []) → p ∧ c = d := by
      intro p _ d hcd
      by_cases hp : p
      · rw [if_pos hp] at hcd
        exact ⟨hp, List.mem_singleton.mp hcd⟩
      · rw [if_neg hp] at hcd
        exact absurd hcd List.not_mem_nil
    rcases List.mem_append.mp hc with hc | hc
    · rcases List.mem_append.mp hc with hc | hc
      · obtain ⟨hinactive, rfl⟩ := hmem hc
        exact Or.inl ⟨rfl, hinactive⟩
      · obtain ⟨-, rfl⟩ := hmem hc
        exact Or.inr rfl
    · obtain ⟨-, rfl⟩ := hmem hc
      exact Or.inr rfl

/-! ## The invariant -/

def Live (s : TelnetTag) (i : OptIndex) : Prop := s.optStates i = .requested ∨ s.optStates i = .active

structure Consistent (s : TelnetTag) : Prop where
  environ : ¬ (Live s .nenv ∧ Live s .oenv)
  -- before the first option is settled, only ECHO can have been asked for
  minimal : s.activated = false → ∀ i, i ≠ .echo → s.optStates i ≠ .requested
  echo : Agrees (s.optStates .echo) s.echoing
  sga : Agrees (s.optStates .theySga) s.editing

/-- An option has been settled, and its side effects have not taken place yet. -/
structure Switched (s : TelnetTag) (o : Opt) (enabled : Bool) : Prop where
  state : s.optStates o.index = if enabled then .active else .inactive
  environ : ¬ (Live s .nenv ∧ Live s .oenv)
  echo : o ≠ oEcho → Agrees (s.optStates .echo) s.echoing
  sga : o ≠ oTheySga → Agrees (s.optStates .theySga) s.editing

/-- The commands of the side effects -/
structure SideCommands (s : TelnetTag) (cmds : List (UInt8 × UInt8)) : Prop where
  none : s.activated = true → cmds = []
  le : cmds.length ≤ 3
  options : ∀ c ∈ cmds, c.2 = TELOPT_ECHO ∧ s.optStates .echo = .inactive ∨ c.2 = TELOPT_SGA

theorem SideCommands.nil : SideCommands s [] :=
  ⟨fun _ => rfl, Nat.zero_le 3, fun _ hc => absurd hc List.not_mem_nil⟩

theorem setMode_same : (setMode s o enabled).optStates = s.optStates ∧
    (setMode s o enabled).activated = s.activated ∧ (setMode s o enabled).sent = s.sent := by
  unfold setMode
  by_cases hecho : o.option = TELOPT_ECHO ∧ o.send = DO
  · rw [if_pos hecho]
    exact ⟨rfl, rfl, rfl⟩
  · rw [if_neg hecho]
    by_cases hsga : o.option = TELOPT_SGA ∧ o.send = DO
    · rw [if_pos hsga]
      exact ⟨rfl, rfl, rfl⟩
    · rw [if_neg hsga]
      exact ⟨rfl, rfl, rfl⟩

theorem Switched.modes (h : Switched s o enabled) (ho : o ∈ opts) :
    Agrees (s.optStates .echo) (setMode s o enabled).echoing ∧
      Agrees (s.optStates .theySga) (setMode s o enabled).editing := by
  by_cases hecho : o = oEcho
  · subst hecho
    rw [setMode_echo]
    refine ⟨?_, h.sga (by decide)⟩
    rw [show s.optStates .echo = _ from h.state]
    exact agrees_switched enabled
  · by_cases hsga : o = oTheySga
    · subst hsga
      rw [setMode_sga]
      refine ⟨h.echo (by decide), ?_⟩
      rw [show s.optStates .theySga = _ from h.state]
      exact agrees_switched enabled
    · rw [setMode_other ho hecho hsga]
      exact ⟨h.echo hecho, h.sga hsga⟩

theorem Live.congr {i : OptIndex} (h : Live t i) (hi : t.optStates i = s.optStates i) : Live s i := by
  unfold Live
  rw [← hi]
  exact h

/-- The side effects make the state consistent. -/
theorem Switched.sideEffects (h : Switched s o enabled) (ho : o ∈ opts) :
    Consistent (s.optionSideEffects o enabled) ∧ (s.optionSideEffects o enabled).activated = true ∧
      (s.optionSideEffects o enabled).optStates .nenv = s.optStates .nenv ∧
      ∃ cmds, Commands s (s.optionSideEffects o enabled) cmds ∧ SideCommands s cmds := by
  obtain ⟨hopts, hactivated, hsent⟩ := @setMode_same s o enabled
  obtain ⟨hecho, hsga⟩ := h.modes ho
  have hset : Commands s (setMode s o enabled) [] := .none hsent
  rw [optionSideEffects_eq]
  revert hopts hactivated hsent hecho hsga hset
  generalize setMode s o enabled = t
  intro hopts hactivated hsent hecho hsga hset
  rw [← hopts] at hecho hsga
  have henviron : ¬ (Live t .nenv ∧ Live t .oenv) := fun hlive =>
    h.environ ⟨hlive.1.congr (by rw [hopts]), hlive.2.congr (by rw [hopts])⟩
  by_cases hact : t.activated = true
  · rw [if_pos hact]
    refine ⟨⟨henviron, fun hnot => absurd (hact.symm.trans hnot) Bool.noConfusion, hecho, hsga⟩, hact,
      by rw [hopts], [], hset, .nil⟩
  · rw [if_neg hact]
    have hnenv := ensureAll_of_ne (s := t) (i := .nenv) (by decide) (by decide) (by decide)
    have hoenv := ensureAll_of_ne (s := t) (i := .oenv) (by decide) (by decide) (by decide)
    obtain ⟨cmds, hcmds, hle, hoptions⟩ := commands_ensureAll (s := t)
    refine ⟨⟨?_, fun hnot => (nomatch hnot), ?_, ?_⟩, rfl, hnenv.trans (by rw [hopts]), cmds,
      hset.after (hcmds.before rfl), ⟨?_, hle, ?_⟩⟩
    · exact fun hlive => henviron ⟨Live.congr hlive.1 hnenv, Live.congr hlive.2 hoenv⟩
    · show Agrees ((ensureAll t).optStates .echo) (ensureAll t).echoing
      rw [ensureAll_echo, ensureAll_mode.1]
      exact hecho.ensured
    · show Agrees ((ensureAll t).optStates .theySga) (ensureAll t).editing
      rw [ensureAll_sga, ensureAll_mode.2]
      exact hsga.ensured
    · exact fun hs => absurd (hactivated.trans hs) hact
    · rw [← hopts]
      exact hoptions

/-! ## Settling an option -/

/-- An option has been set to active, and nothing else has been done yet. -/
structure SetActive (s : TelnetTag) (o : Opt) : Prop where
  state : s.optStates o.index = .active
  environ : o ≠ oNenv → o ≠ oOenv → ¬ (Live s .nenv ∧ Live s .oenv)
  echo : o ≠ oEcho → Agrees (s.optStates .echo) s.echoing
  sga : o ≠ oTheySga → Agrees (s.optStates .theySga) s.editing

/-- The other one of the environment options -/
def Rival (o o' : Opt) : Prop := o = oNenv ∧ o' = oOenv ∨ o = oOenv ∧ o' = oNenv

theorem telnetSize_same (width height : ℤ) : (s.telnetSize width height).optStates = s.optStates ∧
    (s.telnetSize width height).activated = s.activated ∧ (s.telnetSize width height).echoing = s.echoing ∧
    (s.telnetSize width height).editing = s.editing := by
  unfold telnetSize
  dsimp only
  by_cases hnaws : s.optStates .naws ≠ .active
  · rw [if_pos hnaws]
    exact ⟨rfl, rfl, rfl, rfl⟩
  · rw [if_neg hnaws]
    exact ⟨rfl, rfl, rfl, rfl⟩

theorem deactivateOption_same : (s.deactivateOption o).optStates = Function.update s.optStates o.index
    .reallyInactive ∧ (s.deactivateOption o).activated = s.activated ∧
    (s.deactivateOption o).echoing = s.echoing ∧ (s.deactivateOption o).editing = s.editing := by
  unfold deactivateOption
  dsimp only
  by_cases hst : s.optStates o.index = .requested ∨ s.optStates o.index = .active
  · rw [if_pos hst]
    exact ⟨rfl, rfl, rfl, rfl⟩
  · rw [if_neg hst]
    exact ⟨rfl, rfl, rfl, rfl⟩

theorem activateOption_rival {o' : Opt} (h : Rival o o') :
    s.activateOption o = (s.deactivateOption o').optionSideEffects o true := by
  rcases h with ⟨rfl, rfl⟩ | ⟨rfl, rfl⟩
  · rfl
  · rfl

theorem environ_cases : ∀ o ∈ opts, o ≠ oNenv → o ≠ oOenv →
    ¬ (o.send = WILL ∧ (o.option = TELOPT_NEW_ENVIRON ∨ o.option = TELOPT_OLD_ENVIRON)) := by decide

/-- Another option is activated with the window size at most. -/
theorem activateOption_other (ho : o ∈ opts) (hnew : o ≠ oNenv) (hold : o ≠ oOenv) :
    ∃ t, s.activateOption o = t.optionSideEffects o true ∧ Commands s t [] ∧ t.optStates = s.optStates ∧
      t.activated = s.activated ∧ t.echoing = s.echoing ∧ t.editing = s.editing := by
  unfold activateOption
  dsimp only
  rw [if_neg (environ_cases o ho hnew hold)]
  by_cases hnaws : o.send = WILL ∧ o.option = TELOPT_NAWS
  · rw [if_pos hnaws]
    exact ⟨_, rfl, commands_telnetSize _ _, telnetSize_same _ _⟩
  · rw [if_neg hnaws]
    exact ⟨s, rfl, .none rfl, rfl, rfl, rfl, rfl⟩

theorem rival_facts {o' : Opt} (h : Rival o o') : o' ∈ opts ∧ o' ≠ oEcho ∧ o'.index ≠ .echo ∧
    o'.index ≠ .theySga ∧ o.index ≠ o'.index ∧ o'.option ≠ o.option ∧ o ≠ oEcho ∧ o ≠ oTheySga ∧
    (∀ i ∈ [OptIndex.nenv, .oenv], i = o.index ∨ i = o'.index) := by
  rcases h with ⟨rfl, rfl⟩ | ⟨rfl, rfl⟩
  · decide
  · decide

/-- What the activation of an option sends: that its rival is not wanted any more, and side effects -/
theorem SetActive.activate (h : SetActive s o) (ho : o ∈ opts) :
    Consistent (s.activateOption o) ∧ (s.activateOption o).activated = true ∧
      ((s.activateOption o).optStates .nenv = .requested → s.optStates .nenv = .requested) ∧
      ∃ cmds cmds', Commands s (s.activateOption o) (cmds ++ cmds') ∧ SideCommands s cmds' ∧
        cmds.length ≤ 1 ∧ (∀ c ∈ cmds, c.2 ≠ o.option) ∧
        ((∀ o', Rival o o' → ¬ Live s o'.index) → cmds = []) := by
  have hswitched : ∀ {t : TelnetTag}, t.optStates o.index = .active → ¬ (Live t .nenv ∧ Live t .oenv) →
      t.optStates .echo = s.optStates .echo → t.optStates .theySga = s.optStates .theySga →
      t.echoing = s.echoing → t.editing = s.editing → Switched t o true := by
    intro t hstate henviron hecho hsga hechoing hediting
    refine ⟨hstate, henviron, ?_, ?_⟩
    · rw [hecho, hechoing]
      exact h.echo
    · rw [hsga, hediting]
      exact h.sga
  by_cases hrival : ∃ o', Rival o o'
  · obtain ⟨o', hrival⟩ := hrival
    obtain ⟨ho', -, hecho, hsga, hne, hoption, -, -, hboth⟩ := rival_facts hrival
    obtain ⟨hopts, hactivated, hechoing, hediting⟩ := deactivateOption_same (s := s) (o := o')
    have hsame : ∀ i, i ≠ o'.index → (s.deactivateOption o').optStates i = s.optStates i := fun i hi => by
      rw [hopts, Function.update_of_ne hi]
    have hoff : (s.deactivateOption o').optStates o'.index = .reallyInactive := by
      rw [hopts, Function.update_self]
    have hnotlive : ¬ Live (s.deactivateOption o') o'.index := by
      unfold Live
      rw [hoff]
      decide
    have henviron : ¬ (Live (s.deactivateOption o') .nenv ∧ Live (s.deactivateOption o') .oenv) := by
      rintro ⟨hnew, hold⟩
      rcases hrival with ⟨-, rfl⟩ | ⟨-, rfl⟩
      · exact hnotlive hold
      · exact hnotlive hnew
    have hsw := hswitched ((hsame _ hne).trans h.state) henviron (hsame _ hecho.symm) (hsame _ hsga.symm)
      hechoing hediting
    obtain ⟨hconsistent, hact, hnenv, cmds', hcmds', hside⟩ := hsw.sideEffects ho
    rw [activateOption_rival hrival]
    refine ⟨hconsistent, hact, ?_, deactivation s o', cmds', (commands_deactivateOption ho').trans hcmds', ?_,
      ?_, ?_, ?_⟩
    · rw [hnenv]
      intro hreq
      rcases hboth .nenv (by decide) with hi | hi
      · rw [hi, hsame _ hne, h.state] at hreq
        exact absurd hreq (by decide)
      · rw [hi, hoff] at hreq
        exact absurd hreq (by decide)
    · refine ⟨fun hs => hside.none (hactivated.trans hs), hside.le, ?_⟩
      rw [← hsame _ hecho.symm]
      exact hside.options
    · unfold deactivation
      by_cases hlive : s.optStates o'.index = .requested ∨ s.optStates o'.index = .active
      · rw [if_pos hlive]
        exact Nat.le_refl 1
      · rw [if_neg hlive]
        exact Nat.zero_le 1
    · intro c hc
      unfold deactivation at hc
      by_cases hlive : s.optStates o'.index = .requested ∨ s.optStates o'.index = .active
      · rw [if_pos hlive] at hc
        rw [List.mem_singleton.mp hc]
        exact hoption
      · rw [if_neg hlive] at hc
        exact absurd hc List.not_mem_nil
    · exact fun hno => if_neg (hno o' hrival)
  · have hnew : o ≠ oNenv := fun heq => hrival ⟨oOenv, Or.inl ⟨heq, rfl⟩⟩
    have hold : o ≠ oOenv := fun heq => hrival ⟨oNenv, Or.inr ⟨heq, rfl⟩⟩
    obtain ⟨t, heq, hcmds, hopts, hactivated, hechoing, hediting⟩ :=
      activateOption_other (s := s) ho hnew hold
    have henviron : ¬ (Live t .nenv ∧ Live t .oenv) := fun hlive =>
      h.environ hnew hold ⟨hlive.1.congr (by rw [hopts]), hlive.2.congr (by rw [hopts])⟩
    have hsw := hswitched ((congrFun hopts _).trans h.state) henviron (congrFun hopts _) (congrFun hopts _)
      hechoing hediting
    obtain ⟨hconsistent, hact, hnenv, cmds', hcmds', hside⟩ := hsw.sideEffects ho
    rw [heq]
    refine ⟨hconsistent, hact, fun hreq => ?_, [], cmds', hcmds.after hcmds', ?_, Nat.zero_le 1,
      fun c hc => absurd hc List.not_mem_nil, fun _ => rfl⟩
    · rw [hnenv, hopts] at hreq
      exact hreq
    · refine ⟨fun hs => hside.none (hactivated.trans hs), hside.le, ?_⟩
      rw [← hopts]
      exact hside.options

theorem refusedOption_eq : s.refusedOption o =
    (if o = oNenv ∧ s.optStates .oenv = .inactive then
      (s.sendOpt WILL TELOPT_OLD_ENVIRON).setOpt .oenv .requested
    else s).optionSideEffects o false ∨ o ∉ opts := by
  by_cases ho : o ∈ opts
  · left
    have hnew : ∀ o ∈ opts, (o.send = WILL ∧ o.option = TELOPT_NEW_ENVIRON ↔ o = oNenv) := by decide
    unfold refusedOption
    have hiff : (o.send = WILL ∧ o.option = TELOPT_NEW_ENVIRON ∧ s.optStates .oenv = .inactive) ↔
        o = oNenv ∧ s.optStates .oenv = .inactive := by
      rw [← hnew o ho, and_assoc]
    dsimp only
    rw [if_congr hiff rfl rfl]
  · exact Or.inr ho

/-- What the refusal of an option sends: a request for the old environment option, and side effects -/
theorem Switched.refuse (h : Switched s o false) (ho : o ∈ opts) :
    Consistent (s.refusedOption o) ∧ (s.refusedOption o).activated = true ∧
      (s.refusedOption o).optStates .nenv = s.optStates .nenv ∧
      ∃ cmds cmds', Commands s (s.refusedOption o) (cmds ++ cmds') ∧ SideCommands s cmds' ∧
        cmds.length ≤ 1 ∧ (∀ c ∈ cmds, c.2 ≠ o.option) ∧ (o ≠ oNenv → cmds = []) := by
  rw [(refusedOption_eq (s := s) (o := o)).resolve_right (fun hnot => hnot ho)]
  by_cases hold : o = oNenv ∧ s.optStates .oenv = .inactive
  · obtain ⟨rfl, hinactive⟩ := hold
    rw [if_pos ⟨rfl, hinactive⟩]
    have hnenv : s.optStates .nenv = .inactive := h.state
    have hsw : Switched ((s.sendOpt WILL TELOPT_OLD_ENVIRON).setOpt .oenv .requested) oNenv false := by
      refine ⟨?_, ?_, fun hne => ?_, fun hne => ?_⟩
      · exact (setOpt_of_ne (by decide) _).trans hnenv
      · rintro ⟨hlive, -⟩
        have hsame := hlive.congr (setOpt_of_ne (by decide) _)
        unfold Live at hsame
        rw [sendOpt_optStates, hnenv] at hsame
        exact absurd hsame (by decide)
      · rw [setOpt_of_ne (by decide)]
        exact h.echo hne
      · rw [setOpt_of_ne (by decide)]
        exact h.sga hne
    obtain ⟨hconsistent, hact, hsame, cmds', hcmds', hside⟩ := hsw.sideEffects ho
    have hsent := (@commands_sendOpt s WILL (by decide) TELOPT_OLD_ENVIRON).before
      (u := (s.sendOpt WILL TELOPT_OLD_ENVIRON).setOpt .oenv .requested) rfl
    refine ⟨hconsistent, hact, hsame.trans (setOpt_of_ne (by decide) _), _, cmds', hsent.trans hcmds', ?_,
      Nat.le_refl 1, fun c hc => ?_, fun hne => absurd rfl hne⟩
    · refine ⟨hside.none, hside.le, fun c hc => ?_⟩
      have hoptions := hside.options c hc
      rw [setOpt_of_ne (by decide)] at hoptions
      exact hoptions
    · rw [List.mem_singleton.mp hc]
      decide
  · rw [if_neg hold]
    obtain ⟨hconsistent, hact, hsame, cmds', hcmds', hside⟩ := h.sideEffects ho
    exact ⟨hconsistent, hact, hsame, [], cmds', hcmds', hside, Nat.zero_le 1,
      fun c hc => absurd hc List.not_mem_nil, fun _ => rfl⟩

/-! ## Steps -/

/-- What a refusal of NEW_ENVIRON may cause -/
def environCharge (s : TelnetTag) : ℕ := if s.optStates .nenv = .requested then 1 else 0

/-- What the first answer may cause -/
def echoCharge (s : TelnetTag) : ℕ := if s.activated = false ∧ s.optStates .echo = .requested then 3 else 0

/-- The commands that answers to what was asked for may still cause -/
def potential (s : TelnetTag) : ℕ := environCharge s + echoCharge s

/-- A step keeps the state consistent, and its commands are paid for by the grant and the potential. -/
structure Progress (s t : TelnetTag) (cmds : List (UInt8 × UInt8)) (grant : ℕ) : Prop where
  commands : Commands s t cmds
  consistent : Consistent t
  paid : cmds.length + potential t ≤ potential s + grant

theorem echoCharge_activated (h : s.activated = true) : echoCharge s = 0 := by
  unfold echoCharge
  rw [if_neg]
  rintro ⟨hnot, -⟩
  exact absurd (h.symm.trans hnot) Bool.noConfusion

theorem environCharge_mono (h : t.optStates .nenv = .requested → s.optStates .nenv = .requested) :
    environCharge t ≤ environCharge s := by
  unfold environCharge
  by_cases hreq : t.optStates .nenv = .requested
  · exact Nat.le_of_eq ((if_pos hreq).trans (if_pos (h hreq)).symm)
  · rw [if_neg hreq]
    exact Nat.zero_le _

theorem echoCharge_le_three : echoCharge s ≤ 3 := by
  unfold echoCharge
  by_cases hreq : s.activated = false ∧ s.optStates .echo = .requested
  · exact Nat.le_of_eq (if_pos hreq)
  · rw [if_neg hreq]
    exact Nat.zero_le 3

theorem index_opts : ∀ o ∈ opts, (o.index = .nenv → o = oNenv) ∧ (o.index = .oenv → o = oOenv) ∧
    (o.index = .echo → o = oEcho) ∧ (o.index = .theySga → o = oTheySga) := by decide

theorem Consistent.echo_of_requested (h : Consistent s) (ho : o ∈ opts) (hact : s.activated = false)
    (hreq : s.optStates o.index = .requested) : o = oEcho := by
  refine (index_opts o ho).2.2.1 ?_
  by_contra hne
  exact h.minimal hact o.index hne hreq

theorem Consistent.setActive (h : Consistent s) (ho : o ∈ opts) : SetActive (s.setOpt o.index .active) o := by
  obtain ⟨hnenv, hoenv, hecho, hsga⟩ := index_opts o ho
  refine ⟨setOpt_self _ _, fun hnew hold hlive => h.environ ⟨?_, ?_⟩, fun hne => ?_, fun hne => ?_⟩
  · exact hlive.1.congr (setOpt_of_ne (fun heq => hnew (hnenv heq.symm)) _)
  · exact hlive.2.congr (setOpt_of_ne (fun heq => hold (hoenv heq.symm)) _)
  · rw [setOpt_of_ne fun heq => hne (hecho heq.symm)]
    exact h.echo
  · rw [setOpt_of_ne fun heq => hne (hsga heq.symm)]
    exact h.sga

theorem live_setInactive {i j : OptIndex} (h : Live (s.setOpt i .inactive) j) : Live s j := by
  by_cases hij : j = i
  · subst hij
    unfold Live at h
    rw [setOpt_self] at h
    exact absurd h (by decide)
  · exact h.congr (setOpt_of_ne hij _)

theorem Consistent.setInactive (h : Consistent s) (ho : o ∈ opts) :
    Switched (s.setOpt o.index .inactive) o false := by
  obtain ⟨-, -, hecho, hsga⟩ := index_opts o ho
  refine ⟨setOpt_self _ _, fun hlive => h.environ ⟨live_setInactive hlive.1, live_setInactive hlive.2⟩,
    fun hne => ?_, fun hne => ?_⟩
  · rw [setOpt_of_ne fun heq => hne (hecho heq.symm)]
    exact h.echo
  · rw [setOpt_of_ne fun heq => hne (hsga heq.symm)]
    exact h.sga

/-- A step that only sends -/
theorem Consistent.progress_sendOpt (h : Consistent s) {cmd : UInt8} (hcmd : IsCommand cmd) (option : UInt8) :
    Progress s (s.sendOpt cmd option) [(cmd, option)] 5 := by
  refine ⟨commands_sendOpt hcmd option, ⟨h.environ, h.minimal, h.echo, h.sga⟩, ?_⟩
  show 1 + potential s ≤ potential s + 5
  omega

theorem Consistent.progress_same (h : Consistent s) (grant : ℕ) : Progress s s [] grant := by
  refine ⟨.none rfl, h, ?_⟩
  rw [List.length_nil]
  omega

/-- The side effects of an answer are paid for by what was asked for before the first option was settled. -/
theorem SideCommands.paid (hside : SideCommands t cmds) (h : Consistent s) (ho : o ∈ opts)
    (hreq : s.optStates o.index = .requested) (hact : t.activated = s.activated) :
    cmds.length ≤ echoCharge s := by
  by_cases hs : s.activated = true
  · rw [hside.none (hact.trans hs)]
    exact Nat.zero_le _
  · have hs' : s.activated = false := Bool.eq_false_iff.mpr hs
    have hecho := h.echo_of_requested ho hs' hreq
    subst hecho
    unfold echoCharge
    rw [if_pos ⟨hs', hreq⟩]
    exact hside.le

/-- The grant for what asks for a change -/
def grantOf (asks : Prop) [Decidable asks] : ℕ := if asks then 5 else 0

/-- The other side agrees to an option. -/
theorem Consistent.acked (h : Consistent s) (ho : o ∈ opts) :
    ∃ cmds, Progress s (s.optAcked o) cmds
        (grantOf (s.optStates o.index = .inactive ∨ s.optStates o.index = .reallyInactive)) ∧
      (¬ (s.optStates o.index = .inactive ∨ s.optStates o.index = .reallyInactive) →
        ∀ c ∈ cmds, c.2 ≠ o.option) := by
  unfold optAcked
  cases hst : s.optStates o.index with
  | requested =>
    dsimp only
    obtain ⟨hconsistent, hact, hnenv, cmds, cmds', hcmds, hside, -, hoption, hrival⟩ :=
      (h.setActive ho).activate ho
    have hset : Commands s (s.setOpt o.index .active) [] := .none rfl
    have hnone : cmds = [] := by
      refine hrival fun o' hr hlive => ?_
      have hlive' : Live s o'.index := hlive.congr (setOpt_of_ne (rival_facts hr).2.2.2.2.1.symm _)
      have howner : Live s o.index := Or.inl hst
      rcases hr with ⟨rfl, rfl⟩ | ⟨rfl, rfl⟩
      · exact h.environ ⟨howner, hlive'⟩
      · exact h.environ ⟨hlive', howner⟩
    subst hnone
    have hpaid := hside.paid h ho hst rfl
    refine ⟨cmds', ⟨hset.after hcmds, hconsistent, ?_⟩, fun _ c hc => ?_⟩
    · have hmono : environCharge ((s.setOpt o.index .active).activateOption o) ≤ environCharge s := by
        refine environCharge_mono fun hreq => ?_
        have hbefore := hnenv hreq
        by_cases hi : OptIndex.nenv = o.index
        · rw [hi, setOpt_self] at hbefore
          exact absurd hbefore (by decide)
        · rwa [setOpt_of_ne hi] at hbefore
      unfold potential
      rw [echoCharge_activated hact]
      omega
    · by_cases hs : s.activated = true
      · rw [hside.none hs] at hc
        exact absurd hc List.not_mem_nil
      · have hecho := h.echo_of_requested ho (Bool.eq_false_iff.mpr hs) hst
        subst hecho
        rcases hside.options c hc with ⟨-, hinactive⟩ | hsga
        · rw [show OptIndex.echo = oEcho.index from rfl, setOpt_self] at hinactive
          exact absurd hinactive (by decide)
        · rw [hsga]
          decide
  | active => exact ⟨[], h.progress_same _, fun _ c hc => absurd hc List.not_mem_nil⟩
  | inactive =>
    dsimp only
    have hsend := commands_sendOpt (s := s.setOpt o.index .active) (isCommand_opts o ho).1 o.option
    have hset := h.setActive ho
    have hset' : SetActive ((s.setOpt o.index .active).sendOpt o.send o.option) o :=
      ⟨hset.state, hset.environ, hset.echo, hset.sga⟩
    obtain ⟨hconsistent, hact, hnenv, cmds, cmds', hcmds, hside, hle, -, -⟩ := hset'.activate ho
    have hnone : Commands s (s.setOpt o.index .active) [] := .none rfl
    refine ⟨_, ⟨hnone.after (hsend.trans hcmds), hconsistent, ?_⟩, fun hnot => absurd (Or.inl rfl) hnot⟩
    have hlength := hside.le
    have hmono : environCharge (((s.setOpt o.index .active).sendOpt o.send o.option).activateOption o) ≤
        environCharge s := by
      refine environCharge_mono fun hreq => ?_
      have hbefore := hnenv hreq
      rw [sendOpt_optStates] at hbefore
      by_cases hi : OptIndex.nenv = o.index
      · rw [hi, setOpt_self] at hbefore
        exact absurd hbefore (by decide)
      · rwa [setOpt_of_ne hi] at hbefore
    unfold potential grantOf
    rw [echoCharge_activated hact, List.length_append, List.length_append, List.length_singleton,
      if_pos (Or.inl rfl)]
    omega
  | reallyInactive =>
    refine ⟨[(o.nsend, o.option)], ?_, fun hnot => absurd (Or.inr rfl) hnot⟩
    unfold grantOf
    rw [if_pos (Or.inr rfl)]
    exact h.progress_sendOpt (isCommand_opts o ho).2 o.option

/-- The other side refuses an option. -/
theorem Consistent.naked (h : Consistent s) (ho : o ∈ opts) :
    ∃ cmds, Progress s (s.optNaked o) cmds (grantOf (s.optStates o.index = .active)) ∧
      (s.optStates o.index ≠ .active → ¬ (s.activated = false ∧ s.optStates .echo = .requested ∧ o = oEcho) →
        ∀ c ∈ cmds, c.2 ≠ o.option) := by
  unfold optNaked
  cases hst : s.optStates o.index with
  | requested =>
    dsimp only
    obtain ⟨hconsistent, hact, hnenv, cmds, cmds', hcmds, hside, hle, hoption, hother⟩ :=
      (h.setInactive ho).refuse ho
    have hset : Commands s (s.setOpt o.index .inactive) [] := .none rfl
    have hpaid := hside.paid h ho hst rfl
    refine ⟨_, ⟨hset.after hcmds, hconsistent, ?_⟩, fun _ hnot c hc => ?_⟩
    · unfold potential grantOf
      rw [echoCharge_activated hact, List.length_append, if_neg (by decide)]
      by_cases hnew : o = oNenv
      · subst hnew
        have hbefore : environCharge s = 1 := if_pos hst
        have hafter : environCharge ((s.setOpt oNenv.index .inactive).refusedOption oNenv) = 0 := by
          refine if_neg fun hreq => ?_
          rw [hnenv, show OptIndex.nenv = oNenv.index from rfl, setOpt_self] at hreq
          exact absurd hreq (by decide)
        omega
      · have hmono : environCharge ((s.setOpt o.index .inactive).refusedOption o) ≤ environCharge s := by
          refine environCharge_mono fun hreq => ?_
          rw [hnenv] at hreq
          rwa [setOpt_of_ne fun heq => hnew ((index_opts o ho).1 heq.symm)] at hreq
        rw [hother hnew, List.length_nil]
        omega
    · rcases List.mem_append.mp hc with hc | hc
      · exact hoption c hc
      · by_cases hs : s.activated = true
        · rw [hside.none hs] at hc
          exact absurd hc List.not_mem_nil
        · have hs' : s.activated = false := Bool.eq_false_iff.mpr hs
          have hecho := h.echo_of_requested ho hs' hst
          subst hecho
          exact absurd ⟨hs', hst, rfl⟩ hnot
  | active =>
    dsimp only
    have hsend := commands_sendOpt (s := s.setOpt o.index .inactive) (isCommand_opts o ho).2 o.option
    have hset := h.setInactive ho
    have hset' : Switched ((s.setOpt o.index .inactive).sendOpt o.nsend o.option) o false :=
      ⟨hset.state, hset.environ, hset.echo, hset.sga⟩
    obtain ⟨hconsistent, hact, hnenv, cmds', hcmds', hside⟩ := hset'.sideEffects ho
    have hnone : Commands s (s.setOpt o.index .inactive) [] := .none rfl
    refine ⟨_, ⟨hnone.after (hsend.trans hcmds'), hconsistent, ?_⟩, fun hnot => absurd rfl hnot⟩
    have hlength := hside.le
    have hmono : environCharge (((s.setOpt o.index .inactive).sendOpt o.nsend o.option).optionSideEffects o
        false) ≤ environCharge s := by
      refine environCharge_mono fun hreq => ?_
      rw [hnenv, sendOpt_optStates] at hreq
      by_cases hi : OptIndex.nenv = o.index
      · rw [hi, setOpt_self] at hreq
        exact absurd hreq (by decide)
      · rwa [setOpt_of_ne hi] at hreq
    unfold potential grantOf
    rw [echoCharge_activated hact, List.length_append, List.length_singleton, if_pos rfl]
    omega
  | inactive => exact ⟨[], h.progress_same _, fun _ _ c hc => absurd hc List.not_mem_nil⟩
  | reallyInactive => exact ⟨[], h.progress_same _, fun _ _ c hc => absurd hc List.not_mem_nil⟩

/-- A command from the server -/
theorem Consistent.command (h : Consistent s) (cmd : OptCommand) (option : UInt8) :
    ∃ cmds, Progress s (s.procRecOpt cmd.code option) cmds (grantOf (s.Asks (.command cmd option))) ∧
      (¬ s.Asks (.command cmd option) → ¬ s.EchoRefused cmd option → ∀ c ∈ cmds, c.2 ≠ option) := by
  have hasks : s.Asks (.command cmd option) ↔ s.standing cmd.code option = .asksForChange := Iff.rfl
  unfold grantOf
  rw [if_congr hasks rfl rfl, hasks]
  unfold procRecOpt standing
  cases hfind : opts.find? fun o => o.option == option && (o.ack == cmd.code || o.nak == cmd.code) with
  | some o =>
    dsimp only
    have ho := List.mem_of_find?_eq_some hfind
    have hmatch := List.find?_some hfind
    simp only [Bool.and_eq_true, beq_iff_eq, Bool.or_eq_true] at hmatch
    obtain ⟨rfl, hcmd⟩ := hmatch
    by_cases hack : o.ack = cmd.code
    · obtain ⟨cmds, hprogress, hsilent⟩ := h.acked ho
      simp only [if_pos hack]
      refine ⟨cmds, ?_, ?_⟩
      · unfold grantOf at hprogress
        cases hst : s.optStates o.index with
        | requested => rw [hst] at hprogress; exact hprogress
        | active => rw [hst] at hprogress; exact hprogress
        | inactive => rw [hst] at hprogress; exact hprogress
        | reallyInactive => rw [hst] at hprogress; exact hprogress
      · intro hnot _
        refine hsilent ?_
        rintro (hst | hst)
        · rw [hst] at hnot
          exact hnot rfl
        · rw [hst] at hnot
          exact hnot rfl
    · have hnak := hcmd.resolve_left hack
      obtain ⟨cmds, hprogress, hsilent⟩ := h.naked ho
      simp only [if_neg hack]
      refine ⟨cmds, ?_, ?_⟩
      · unfold grantOf at hprogress
        cases hst : s.optStates o.index with
        | requested => rw [hst] at hprogress; exact hprogress
        | active => rw [hst] at hprogress; exact hprogress
        | inactive => rw [hst] at hprogress; exact hprogress
        | reallyInactive => rw [hst] at hprogress; exact hprogress
      · intro hnot hecho
        refine hsilent ?_ ?_
        · intro hst
          rw [hst] at hnot
          exact hnot rfl
        · rintro ⟨hact, hreq, rfl⟩
          refine hecho ⟨hact, hreq, ?_, rfl⟩
          cases cmd with
          | cmdWont => rfl
          | cmdWill => exact absurd rfl hack
          | cmdDo => exact absurd hnak (by decide)
          | cmdDont => exact absurd hnak (by decide)
  | none =>
    dsimp only
    by_cases hpos : cmd.code = WILL ∨ cmd.code = DO
    · rw [if_pos hpos, if_pos hpos, if_pos rfl]
      refine ⟨_, h.progress_sendOpt ?_ option, fun hnot => absurd rfl hnot⟩
      by_cases hwill : cmd.code = WILL
      · rw [if_pos hwill]
        decide
      · rw [if_neg hwill]
        decide
    · rw [if_neg hpos, if_neg hpos, if_neg (by decide)]
      exact ⟨[], h.progress_same _, fun _ _ c hc => absurd hc List.not_mem_nil⟩

/-- ECHO is asked for, or no longer wanted, by a local command. -/
theorem Consistent.requestEcho (h : Consistent s) {cmd : UInt8} (hcmd : IsCommand cmd) :
    Progress s ((s.setOpt .echo .requested).sendOpt cmd TELOPT_ECHO) [(cmd, TELOPT_ECHO)] 5 := by
  have hset : Commands s (s.setOpt .echo .requested) [] := .none rfl
  have hsame : ∀ {i}, i ≠ OptIndex.echo → (s.setOpt .echo .requested).optStates i = s.optStates i :=
    fun hi => setOpt_of_ne hi _
  refine ⟨hset.after (commands_sendOpt hcmd _), ⟨?_, ?_, ?_, ?_⟩, ?_⟩
  · have hnenv : (s.setOpt .echo .requested).optStates .nenv = s.optStates .nenv := hsame (by decide)
    have hoenv : (s.setOpt .echo .requested).optStates .oenv = s.optStates .oenv := hsame (by decide)
    exact fun hlive => h.environ ⟨Live.congr hlive.1 hnenv, Live.congr hlive.2 hoenv⟩
  · intro hact i hi
    rw [sendOpt_optStates, hsame hi]
    exact h.minimal hact i hi
  · rw [sendOpt_optStates, setOpt_self]
    exact agrees_requested _
  · rw [sendOpt_optStates, hsame (by decide)]
    exact h.sga
  · have hmono : environCharge ((s.setOpt .echo .requested).sendOpt cmd TELOPT_ECHO) ≤ environCharge s := by
      refine environCharge_mono fun hreq => ?_
      rwa [sendOpt_optStates, hsame (by decide)] at hreq
    have hthree := @echoCharge_le_three ((s.setOpt .echo .requested).sendOpt cmd TELOPT_ECHO)
    unfold potential
    rw [List.length_singleton]
    omega

theorem Consistent.negotiate (h : Consistent s) (e : Negotiation) :
    ∃ cmds, Progress s (s.negotiate e) cmds (grantOf (s.Asks e)) := by
  cases e with
  | command cmd option =>
    obtain ⟨cmds, hprogress, -⟩ := h.command cmd option
    exact ⟨cmds, hprogress⟩
  | recho =>
    unfold TelnetTag.negotiate telnetSpecial grantOf
    dsimp only
    rw [if_pos (show s.Asks .recho from trivial)]
    by_cases hst : s.optStates .echo = .inactive ∨ s.optStates .echo = .reallyInactive
    · rw [if_pos hst]
      exact ⟨_, h.requestEcho (by decide)⟩
    · rw [if_neg hst]
      exact ⟨[], h.progress_same _⟩
  | lecho =>
    unfold TelnetTag.negotiate telnetSpecial grantOf
    dsimp only
    rw [if_pos (show s.Asks .lecho from trivial)]
    by_cases hst : s.optStates .echo = .active
    · rw [if_pos hst]
      exact ⟨_, h.requestEcho (by decide)⟩
    · rw [if_neg hst]
      exact ⟨[], h.progress_same _⟩

/-! ## Runs -/

/-- What was written is a sequence of whole commands. -/
def Whole (s : TelnetTag) : Prop := Reads commandStep .topLevel s.sent s.commandsSent .topLevel

theorem Commands.whole (h : Commands s t cmds) (hs : Whole s) :
    Whole t ∧ t.commandsSent = s.commandsSent ++ cmds := by
  obtain ⟨wire, hsent, hreads⟩ := h
  have hall := Reads.append hs hreads
  rw [← hsent] at hall
  have hcommands : t.commandsSent = s.commandsSent ++ cmds := congrArg Prod.snd hall
  unfold Whole
  rw [hcommands]
  exact ⟨hall, rfl⟩

/-- Every prefix of a run is paid for. -/
theorem Consistent.run {events : List Negotiation} (h : Consistent s) (hs : Whole s) :
    Consistent (events.foldl TelnetTag.negotiate s) ∧ Whole (events.foldl TelnetTag.negotiate s) ∧
      (events.foldl TelnetTag.negotiate s).commandsSent.length ≤
        s.commandsSent.length + potential s + 5 * s.changes events := by
  induction events generalizing s with
  | nil => exact ⟨h, hs, Nat.le_add_right_of_le (Nat.le_add_right _ _)⟩
  | cons e events ih =>
    obtain ⟨cmds, hprogress⟩ := h.negotiate e
    obtain ⟨hwhole, hsent⟩ := hprogress.commands.whole hs
    obtain ⟨hconsistent, hwhole', hle⟩ := ih hprogress.consistent hwhole
    refine ⟨hconsistent, hwhole', Nat.le_trans hle ?_⟩
    have hpaid := hprogress.paid
    have hgrant : grantOf (s.Asks e) = 5 * if s.Asks e then 1 else 0 := by
      unfold grantOf
      by_cases hasks : s.Asks e
      · rw [if_pos hasks, if_pos hasks]
      · rw [if_neg hasks, if_neg hasks]
    rw [hsent, List.length_append, changes]
    omega

theorem telnetInit_consistent (conf : Conf) :
    Consistent (telnetInit conf) ∧ Whole (telnetInit conf) ∧ potential (telnetInit conf) ≤ 1 := by
  unfold telnetInit
  cases conf.passiveTelnet with
  | true =>
    refine ⟨⟨?_, fun _ i _ => ?_, ?_, ?_⟩, rfl, Nat.zero_le 1⟩
    · rintro ⟨hlive, -⟩
      rcases hlive with hlive | hlive
      · exact (nomatch hlive)
      · exact (nomatch hlive)
    · exact fun hreq => (nomatch hreq)
    · exact ⟨fun hactive => (nomatch hactive), fun _ => rfl⟩
    · exact ⟨fun hactive => (nomatch hactive), fun _ => rfl⟩
  | false =>
    refine ⟨⟨?_, fun hact => (nomatch hact), agrees_requested _, agrees_requested _⟩, rfl, Nat.le_refl 1⟩
    rintro ⟨-, hlive⟩
    rcases hlive with hlive | hlive
    · exact (nomatch hlive)
    · exact (nomatch hlive)

/-- Negotiation is consistent and ends, for every order of commands. The refusal of NEW_ENVIRON may be followed by
one more request. -/
theorem negotiation_consistent (conf : Conf) (events : List Negotiation) :
    let telnet := events.foldl TelnetTag.negotiate (telnetInit conf)
    telnet.commandsSent.length ≤
        (telnetInit conf).commandsSent.length + 1 + 5 * (telnetInit conf).changes events ∧
      ¬ (telnet.optStates .nenv = .active ∧ telnet.optStates .oenv = .active) ∧
      Agrees (telnet.optStates .echo) telnet.echoing ∧ Agrees (telnet.optStates .theySga) telnet.editing ∧
      ∀ (cmd : OptCommand) (option : UInt8), telnet.standing cmd.code option ≠ .asksForChange →
        ¬ telnet.EchoRefused cmd option → telnet.Silent (telnet.procRecOpt cmd.code option) option := by
  obtain ⟨hinit, hwhole, hpotential⟩ := telnetInit_consistent conf
  obtain ⟨hconsistent, hwhole', hle⟩ := @Consistent.run _ events hinit hwhole
  dsimp only
  refine ⟨by omega, ?_, hconsistent.echo, hconsistent.sga, fun cmd option hnot hecho => ?_⟩
  · rintro ⟨hnew, hold⟩
    exact hconsistent.environ ⟨Or.inr hnew, Or.inr hold⟩
  · obtain ⟨cmds, hprogress, hsilent⟩ := hconsistent.command cmd option
    exact ⟨cmds, (hprogress.commands.whole hwhole').2, hsilent hnot hecho⟩

/-- With the conditions that the theorem leaves out: in active mode the refusal of NEW_ENVIRON costs a request
more than was made at first, and in passive mode ECHO is asked for again when it is refused. -/
theorem negotiation_exceptions :
    (¬ ∃ c, ∀ conf events, (events.foldl TelnetTag.negotiate (telnetInit conf)).commandsSent.length ≤
      (telnetInit conf).commandsSent.length + c * (telnetInit conf).changes events) ∧
    ∃ (conf : Conf) (events : List Negotiation) (cmd : OptCommand) (option : UInt8),
      let telnet := events.foldl TelnetTag.negotiate (telnetInit conf)
      telnet.standing cmd.code option = .answers ∧
        ¬ telnet.Silent (telnet.procRecOpt cmd.code option) option := by
  constructor
  · rintro ⟨c, hbound⟩
    have hle := hbound ⟨80, 24, false, [], [], true, [], none⟩ [.command .cmdDont TELOPT_NEW_ENVIRON]
    have hchanges : (telnetInit ⟨80, 24, false, [], [], true, [], none⟩).changes
        [.command .cmdDont TELOPT_NEW_ENVIRON] = 0 := by decide
    rw [hchanges, Nat.mul_zero] at hle
    exact absurd hle (by decide)
  · refine ⟨⟨80, 24, true, [], [], true, [], none⟩, [.recho], .cmdWont, TELOPT_ECHO, by decide, ?_⟩
    rintro ⟨cmds, hsent, hsilent⟩
    have hthree : cmds = [(DO, TELOPT_ECHO), (WILL, TELOPT_SGA), (DO, TELOPT_SGA)] :=
      List.append_cancel_left (hsent.symm.trans (by decide))
    exact hsilent (DO, TELOPT_ECHO) (by rw [hthree]; exact List.mem_cons_self) rfl

end PuttyNd.Telnet
