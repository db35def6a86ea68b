import PuttyNd.Lib.Runs
import PuttyNd.Transport.Proofs.FrameProofs

/-!
# Proofs: limits on the data under one key

`tally` is how many bytes have been counted since the counters were last reset. What remains of an allowance
is the limit less the tally, as long as the limit does not change.
-/

namespace PuttyNd.Transport

open Runs

variable {w : ℕ}

/-- The part of the state that the limits are about -/
structure Limits (w : ℕ) where
  conf : Conf
  maxDataSize : BitVec w
  inStats : DataTransferStatsDirection w
  outStats : DataTransferStatsDirection w
  counts : List Count

def Ssh2Transport.limits (s : Ssh2Transport w) : Limits w :=
  ⟨s.conf, s.maxDataSize, s.inStats, s.outStats, s.counts⟩

/-! ## What leaves the limits alone -/

namespace Ssh2Transport

variable {env : Env w} {s s' : Ssh2Transport w}

theorem Moved.limits {ws : List Wire} (h : Moved s s' ws) : s'.limits = s.limits := by
  rw [h.eq]
  rfl

theorem Popped.limits {o : Option PktIn} (h : Popped s s' o) : s'.limits = s.limits := by
  obtain ⟨ws, hmoved⟩ := h.moved
  exact hmoved.limits

theorem limits_ssh2kexCoroutine (k : CrStateKex) (hlive : s.ended = none) :
    (ssh2kexCoroutine env s k).1.limits = s.limits := by
  obtain ⟨s1, ws, hmoved, hchecked⟩ := @ssh2kexCoroutine_checked w env s k hlive
  rw [hchecked.eq, ← hmoved.limits]
  rfl

theorem limits_beginKeyExchange : (beginKeyExchange env s).limits = s.limits := by
  obtain ⟨kexlists, payload, incoming, heq, -, -⟩ := @beginKeyExchange_eq w env s
  rw [heq]
  rfl

theorem limits_askWeak (l : List Weak) : (askWeak env s l).limits = s.limits := by
  rcases @askWeak_cases w env s l with ⟨dlgret, rest, -, heq⟩ | heq | heq
  · rw [heq]
    rfl
  · rw [heq]
    rfl
  · rw [heq]
    rfl

theorem limits_receiveKexinit (pktin : PktIn) :
    (receiveKexinit env s pktin).limits = s.limits := by
  rcases @receiveKexinit_cases w env s pktin with
    ⟨incoming, ws, heq, -⟩ | ⟨agreement, algs, ignorepkt, uncertHostkeys, -, -, heq⟩
  · rw [heq]
    rfl
  · rw [heq]
    exact limits_askWeak _

theorem limits_receiveService (pktin : PktIn) :
    (receiveService env s pktin).limits = s.limits := by
  unfold receiveService
  split
  · split
    · rfl
    · split
      · rfl
      · rfl
  · split
    · rfl
    · rfl

end Ssh2Transport

/-! ## What is counted -/

/-- The bytes counted in a direction since its counter was last reset, if it has been -/
def countedSince (d : Direction) : List Count → Option ℕ
  | [] => none
  | .counted d' bytes :: rest =>
    if d' = d then (countedSince d rest).map (· + bytes) else countedSince d rest
  | .reset d' :: rest => if d' = d then some 0 else countedSince d rest

/-- A counter is right for a limit and a tally. -/
inductive Tallied (maxDataSize : BitVec w) (s : DataTransferStatsDirection w) : Option ℕ → Prop
  | fresh (hrunning : s.running = false) (hexpired : s.expired = false) :
    Tallied maxDataSize s none
  | unlimited {n : ℕ} (hmax : maxDataSize = 0) (hrunning : s.running = false)
    (hexpired : s.expired = false) : Tallied maxDataSize s (some n)
  | left {n : ℕ} (hlt : n < maxDataSize.toNat) (hremaining : s.remaining.toNat + n = maxDataSize.toNat)
    (hrunning : s.running = true) (hexpired : s.expired = false) : Tallied maxDataSize s (some n)
  | spent {n : ℕ} (hmax : maxDataSize ≠ 0) (hle : maxDataSize.toNat ≤ n) (hrunning : s.running = false)
    (hexpired : s.expired = true) : Tallied maxDataSize s (some n)

namespace Tallied

variable {maxDataSize : BitVec w} {s : DataTransferStatsDirection w} {tally : Option ℕ}

theorem consume (h : Tallied maxDataSize s tally) (size : BitVec w) :
    Tallied maxDataSize (dtsConsume s size) (tally.map (· + size.toNat)) := by
  unfold dtsConsume
  cases h with
  | fresh hrunning hexpired =>
    rw [if_neg (by simp [hrunning])]
    exact .fresh hrunning hexpired
  | unlimited hmax hrunning hexpired =>
    rw [if_neg (by simp [hrunning])]
    exact .unlimited hmax hrunning hexpired
  | @left n hlt hremaining hrunning hexpired =>
    rw [if_pos hrunning]
    show Tallied _ _ (some (n + size.toNat))
    by_cases hle : s.remaining ≤ size
    · rw [if_pos hle]
      rw [BitVec.le_def] at hle
      refine .spent (fun hzero => ?_) (by omega) rfl rfl
      rw [hzero] at hlt
      exact Nat.not_lt_zero _ hlt
    · rw [if_neg hle]
      rw [BitVec.le_def] at hle
      have hsub : (s.remaining - size).toNat = s.remaining.toNat - size.toNat :=
        BitVec.toNat_sub_of_le (BitVec.le_def.mpr (by omega))
      refine .left (by omega) ?_ hrunning hexpired
      show (s.remaining - size).toNat + _ = _
      omega
  | @spent n hmax hle hrunning hexpired =>
    rw [if_neg (by simp [hrunning])]
    show Tallied _ _ (some (n + size.toNat))
    exact .spent hmax (by omega) hrunning hexpired

theorem reset : Tallied maxDataSize (dtsReset maxDataSize) (some 0) := by
  by_cases hmax : maxDataSize = 0
  · exact .unlimited hmax (decide_eq_false fun hne => hne hmax) rfl
  · refine .left ?_ rfl (decide_eq_true hmax) rfl
    rw [Nat.pos_iff_ne_zero]
    intro hzero
    exact hmax (BitVec.eq_of_toNat_eq hzero)

theorem expired_iff (h : Tallied maxDataSize s tally) :
    s.expired = true ↔ maxDataSize ≠ 0 ∧ ∃ n, tally = some n ∧ maxDataSize.toNat ≤ n := by
  cases h with
  | fresh hrunning hexpired => simp [hexpired]
  | unlimited hmax hrunning hexpired => simp [hexpired, hmax]
  | left hlt hremaining hrunning hexpired =>
    rw [hexpired]
    refine ⟨fun h => (nomatch h), fun ⟨_, n, hn, hle⟩ => ?_⟩
    cases hn
    omega
  | spent hmax hle hrunning hexpired =>
    exact ⟨fun _ => ⟨hmax, _, rfl, hle⟩, fun _ => hexpired⟩

end Tallied

/-- The limit is the one of the configuration, and the counters are right for it. -/
structure Limits.Inv (l : Limits w) : Prop where
  maxDataSize : l.maxDataSize = parseBlocksize w l.conf.sshRekeyData
  inStats : Tallied l.maxDataSize l.inStats (countedSince .«in» l.counts)
  outStats : Tallied l.maxDataSize l.outStats (countedSince .out l.counts)

namespace Ssh2Transport

variable {env : Env w} {s s' : Ssh2Transport w}

theorem inv_of_limits (h : s.limits.Inv) (heq : s'.limits = s.limits) : s'.limits.Inv := heq ▸ h

theorem inv_consume (h : s.limits.Inv) (d : Direction) (size : BitVec w) :
    (s.consume d size).limits.Inv := by
  cases d with
  | «in» => exact ⟨h.maxDataSize, h.inStats.consume size, h.outStats⟩
  | out => exact ⟨h.maxDataSize, h.inStats, h.outStats.consume size⟩

theorem inv_resetStats (h : s.limits.Inv) (d : Direction) : (s.resetStats d).limits.Inv := by
  cases d with
  | «in» => exact ⟨h.maxDataSize, .reset, h.outStats⟩
  | out => exact ⟨h.maxDataSize, h.inStats, .reset⟩

theorem inv_receiveNewkeys (h : s.limits.Inv) (pktin : PktIn) :
    (receiveNewkeys env s pktin).1.limits.Inv := by
  have hreset := inv_resetStats h .«in»
  unfold receiveNewkeys
  split
  · exact h
  · simp only
    split
    · exact inv_of_limits hreset limits_beginKeyExchange
    · split
      · exact hreset
      · split
        · exact hreset
        · exact hreset

theorem inv_considerRekey (h : s.limits.Inv) : (considerRekey env s).limits.Inv := by
  unfold considerRekey
  simp only
  generalize hclass : (if s.rekeyClass = .postUserauth then _ else s : Ssh2Transport w) = s1
  have h1 : s1.limits.Inv := by
    rw [← hclass]
    split
    · split
      · exact h
      · exact h
    · exact h
  generalize hexpired : (if s1.rekeyClass = .none then _ else s1 : Ssh2Transport w) = s2
  have h2 : s2.limits.Inv := by
    rw [← hexpired]
    split
    · split
      · exact h1
      · split
        · exact h1
        · exact h1
    · exact h1
  split
  · exact inv_resetStats (inv_resetStats h2 .«in») .out
  · exact h2

theorem inv_idle (h : s.limits.Inv) : (idle env s).1.limits.Inv := by
  unfold idle
  split
  case _ pktin s1 heq =>
    have h1 := inv_of_limits (s := s.concatenate) h (popped_of_eq heq).limits
    split
    · exact h1
    · simp only
      have h2 := @inv_considerRekey w env
        { s1 with inPq := pktin :: s1.inPq, rekeyClass := .server } h1
      split
      · exact h2
      · exact inv_of_limits h2 limits_beginKeyExchange
  case _ s1 heq =>
    have h1 := inv_of_limits (s := s.concatenate) h (popped_of_eq heq).limits
    split
    · exact h1
    · simp only
      have h2 := @inv_considerRekey w env s1 h1
      split
      · exact h2
      · exact inv_of_limits h2 limits_beginKeyExchange

theorem inv_resume (h : s.limits.Inv) (hlive : s.ended = none) : (resume env s).1.limits.Inv := by
  unfold resume
  split
  · exact inv_of_limits h limits_beginKeyExchange
  · split
    case _ heq => exact inv_of_limits h (popped_of_eq heq).limits
    case _ heq =>
      exact inv_of_limits (inv_of_limits h (popped_of_eq heq).limits) (limits_receiveKexinit _)
  · split
    · exact h
    · split
      · exact h
      · exact inv_of_limits h (limits_askWeak _)
  · split
    case _ heq => exact inv_of_limits h (popped_of_eq heq).limits
    case _ heq =>
      have hpop := inv_of_limits h (popped_of_eq heq).limits
      exact hpop
  case h_5 k hstate =>
    have hkex := inv_of_limits h (@limits_ssh2kexCoroutine w env s k hlive)
    split
    case _ heq =>
      rw [heq] at hkex
      exact hkex
    case _ heq =>
      rw [heq] at hkex
      exact inv_resetStats hkex .out
  · split
    case _ heq => exact inv_of_limits h (popped_of_eq heq).limits
    case _ heq => exact inv_receiveNewkeys (inv_of_limits h (popped_of_eq heq).limits) _
  · split
    case _ heq => exact inv_of_limits h (popped_of_eq heq).limits
    case _ heq =>
      exact inv_of_limits (inv_of_limits h (popped_of_eq heq).limits) (limits_receiveService _)
  · exact inv_idle h

theorem inv_runCoroutine (n : ℕ) (h : s.limits.Inv) : (runCoroutine env n s).limits.Inv := by
  induction n generalizing s with
  | zero => exact h
  | succ n ih =>
    unfold runCoroutine
    split
    · exact h
    case isFalse hended =>
      have hresume := @inv_resume w env s h (Option.not_isSome_iff_eq_none.mp hended)
      split
      case _ heq =>
        rw [heq] at hresume
        exact hresume
      case _ heq =>
        rw [heq] at hresume
        exact ih hresume

theorem inv_processQueue (h : s.limits.Inv) : (s.processQueue env).limits.Inv := by
  obtain ⟨ws, hmoved, -, -⟩ := @filterQueue_moved w s
  have hfilter := inv_of_limits h hmoved.limits
  unfold processQueue
  simp only
  split
  · exact hfilter
  · exact inv_runCoroutine _ hfilter

end Ssh2Transport

/-! ## Runs -/

/-- The limit in force is the one of the configuration, and a direction is expired if as much has been counted
since its counter was reset. -/
def Enforced (s : Ssh2Transport w) : Prop :=
  s.maxDataSize = parseBlocksize w s.conf.sshRekeyData ∧
  ∀ d, (s.stats d).expired = true ↔ s.maxDataSize ≠ 0 ∧
    ∃ n, countedSince d s.counts = some n ∧ s.maxDataSize.toNat ≤ n

namespace Ssh2Transport

variable {env : Env w} {s : Ssh2Transport w}

theorem inv_new (conf : Conf) : (new conf : Ssh2Transport w).limits.Inv :=
  ⟨rfl, .fresh rfl rfl, .fresh rfl rfl⟩

theorem enforced_of_inv (h : s.limits.Inv) : Enforced s := by
  refine ⟨h.maxDataSize, fun d => ?_⟩
  cases d with
  | «in» => exact h.inStats.expired_iff
  | out => exact h.outStats.expired_iff

/-- What a new configuration changes, apart from asking for a key exchange -/
theorem limits_reconfigure (conf : Conf) (shortened inadvisable : Bool) :
    (s.reconfigure conf shortened inadvisable).limits =
      { (s.setMaxDataSize.adjustStats s.maxDataSize).1.limits with conf } := by
  unfold reconfigure
  simp only
  split
  · rfl
  · split
    · rfl
    · split
      · rfl
      · rfl

/-- The new limit is the one of the configuration that is replaced. -/
theorem maxDataSize_adjustStats : (s.setMaxDataSize.adjustStats s.maxDataSize).1.maxDataSize =
    parseBlocksize w s.conf.sshRekeyData := by
  unfold adjustStats
  split
  · split
    · rfl
    · rfl
  · rfl

theorem inv_reconfigure {conf : Conf} (h : s.limits.Inv) (shortened inadvisable : Bool)
    (hsame : parseBlocksize w conf.sshRekeyData = parseBlocksize w s.conf.sshRekeyData) :
    (s.reconfigure conf shortened inadvisable).limits.Inv := by
  have hmax : s.setMaxDataSize.maxDataSize = s.maxDataSize := h.maxDataSize.symm
  have hadjust : (s.setMaxDataSize.adjustStats s.maxDataSize).1 = s.setMaxDataSize := by
    unfold adjustStats
    rw [if_neg fun hne => hne.1 hmax.symm]
  rw [limits_reconfigure, hadjust]
  refine ⟨hsame.symm, ?_, ?_⟩
  · show Tallied s.setMaxDataSize.maxDataSize _ _
    rw [hmax]
    exact h.inStats
  · show Tallied s.setMaxDataSize.maxDataSize _ _
    rw [hmax]
    exact h.outStats

/-- A new configuration has the limit of the one it replaces. -/
def SameLimit (s : Ssh2Transport w) : Event w → Prop
  | .reconfigure conf _ _ => s.ended = none →
    parseBlocksize w conf.sshRekeyData = parseBlocksize w s.conf.sshRekeyData
  | _ => True

theorem inv_step {e : Event w} (h : s.limits.Inv) (he : SameLimit s e) : (step env s e).limits.Inv := by
  unfold step
  split
  · exact h
  case isFalse hended =>
    cases e with
    | incoming pktin => exact h
    | higher pkt => exact h
    | consumed d size => exact inv_consume h d size
    | processQueue => exact inv_processQueue h
    | dialog ret => exact inv_processQueue (s := { s with dlgret := ret }) h
    | specialCmd code =>
      refine inv_of_limits h ?_
      cases code with
      | rekey =>
        simp only [specialCmd]
        split
        · rfl
        · rfl
      | xcert arg =>
        simp only [specialCmd]
        split
        · rfl
        · rfl
      | other => rfl
    | reconfigure conf shortened inadvisable =>
      exact inv_reconfigure h shortened inadvisable (he (Option.not_isSome_iff_eq_none.mp hended))
    | timer gssUpdate =>
      refine inv_of_limits h ?_
      simp only [timer]
      split
      · rfl
      · split
        · rfl
        · rfl
    | notifyAuthDone => exact h

theorem sameLimit_of_enforced {e : Event w} (h : Enforced (step env s e)) : SameLimit s e := by
  cases e with
  | reconfigure conf shortened inadvisable =>
    intro hended
    have hstep : step env s (.reconfigure conf shortened inadvisable) =
        s.reconfigure conf shortened inadvisable := by
      unfold step
      rw [if_neg (by simp [hended])]
    rw [hstep] at h
    have hlimits := @limits_reconfigure w s conf shortened inadvisable
    have hmax : (s.reconfigure conf shortened inadvisable).maxDataSize =
        parseBlocksize w s.conf.sshRekeyData :=
      (congrArg Limits.maxDataSize hlimits).trans maxDataSize_adjustStats
    have hconf : (s.reconfigure conf shortened inadvisable).conf = conf :=
      congrArg Limits.conf hlimits
    have hin := h.1
    rw [hmax, hconf] at hin
    exact hin.symm
  | _ => trivial

/-- The limits are enforced as configured in the runs in which no new configuration has another limit. -/
theorem limits_enforced_iff (env : Env w) (conf : Conf) (events : List (Event w)) :
    Always (step env) Enforced (new conf) events ↔ Meets (step env) SameLimit (new conf) events := by
  have hgood : ∀ s : Ssh2Transport w, s.limits.Inv → Enforced s := fun s h => enforced_of_inv h
  have hkept : ∀ (s : Ssh2Transport w) e, s.limits.Inv → SameLimit s e → (step env s e).limits.Inv :=
    fun s e h he => inv_step h he
  exact always_iff_meets hgood hkept (fun s e _ h => sameLimit_of_enforced h) (inv_new conf)

/-- A configuration with a limit of that many bytes -/
def confOf (limit : List UInt8) : Conf := ⟨limit, false, [], false⟩

/-- A client, and a user who accepts everything -/
def clientEnv (kexMethod : Ssh2Transport 32 → KexMethod) : Env 32 where
  isServer := false
  bugRekey := false
  serviceName := []
  cookie := fun _ => List.replicate 16 0
  writeKexinitLists := fun _ => ([], fun _ => [])
  haveSshHostKey := fun _ => true
  confirmWeak := fun _ _ => 1
  kexMethod
  verifySshManualHostKey := fun _ _ => -1
  seatVerifySshHostKey := fun _ _ => 1

/-- After a change from "1" to "2" the limit in force is still 1. -/
theorem limit_lags : ¬ Always (step (clientEnv fun _ => .abort)) Enforced (new (confOf [49]))
    [.reconfigure (confOf [50]) false false] := by
  intro h
  have hreached := (h _ (List.prefix_refl _)).1
  have hlimits := @limits_reconfigure 32 (new (confOf [49])) (confOf [50]) false false
  have hmax := (congrArg Limits.maxDataSize hlimits).trans maxDataSize_adjustStats
  have hconf := congrArg Limits.conf hlimits
  have heq : parseBlocksize 32 [49] = parseBlocksize 32 [50] :=
    hmax.symm.trans (hreached.trans (congrArg (fun conf => parseBlocksize 32 conf.sshRekeyData) hconf))
  exact absurd heq (by decide)

end Ssh2Transport

end PuttyNd.Transport
