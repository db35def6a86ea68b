import Mathlib.Algebra.GroupWithZero.Nat
import PuttyNd.Sftp.RequestTree
import PuttyNd.Lib.Outcome
import PuttyNd.Tree.Proofs.Search234Proofs
import PuttyNd.Tree.Proofs.SearchProofs

/-!
# Proofs: the tree of SFTP requests

The search finds the first free id, although `low` starts below 0.
-/

namespace PuttyNd.Sftp.RequestTree

open Tree234 CInt Memory Outcome Lib.FirstFit

variable {t : Tree234.Tree SftpRequest} {l : List SftpRequest} {low high : UInt32} {m n a b : ℕ}

/-- The number of a request -/
def number (r : SftpRequest) : ℕ := r.id.toNat

/-- `low` stands for the place before `a`, which is -1 at the beginning, and `high` for the place `b`. -/
structure Stands (low high : UInt32) (a b : ℕ) : Prop where
  low : low + 1 = UInt32.ofNat a
  high : high = UInt32.ofNat b
  le : a ≤ b
  lt : b < 2 ^ 31

theorem toNat_ofNat (h : n < 2 ^ 31) : (UInt32.ofNat n).toNat = n :=
  UInt32.toNat_ofNat_of_lt' (by simp only [UInt32.size]; omega)

namespace Stands

theorem gap (h : Stands low high a b) : (high - low).toNat = b + 1 - a := by
  obtain ⟨hlow, hhigh, hle, hlt⟩ := h
  have hdiff : high - low = UInt32.ofNat b - UInt32.ofNat a + 1 := by
    rw [← hlow, hhigh]
    grind
  have hsub : (UInt32.ofNat b - UInt32.ofNat a).toNat = b - a := by
    rw [UInt32.toNat_sub_of_le, toNat_ofNat hlt, toNat_ofNat (by omega)]
    rw [UInt32.le_iff_toNat_le, toNat_ofNat hlt, toNat_ofNat (by omega)]
    exact hle
  have hone : (1 : UInt32).toNat = 1 := rfl
  rw [hdiff, UInt32.toNat_add, hsub, hone, Nat.mod_eq_of_lt (by omega)]
  omega

/-- The middle is between the two, also where `low` is -1. -/
theorem mid (h : Stands low high a b) (hlt : a < b) : ((high + low) / 2).toNat = (a + b - 1) / 2 := by
  obtain ⟨hlow, hhigh, hle, hlt'⟩ := h
  have hsum : high + low = UInt32.ofNat (a + b - 1) := by
    have hone : UInt32.ofNat (a + b - 1) + 1 = UInt32.ofNat a + UInt32.ofNat b := by
      rw [← UInt32.ofNat_add, ← Nat.sub_add_cancel (by omega : 1 ≤ a + b), UInt32.ofNat_add]
      rfl
    rw [← hlow, ← hhigh] at hone
    grind
  have htoNat : (UInt32.ofNat (a + b - 1)).toNat = a + b - 1 :=
    UInt32.toNat_ofNat_of_lt' (by simp only [UInt32.size]; omega)
  have htwo : (2 : UInt32).toNat = 2 := rfl
  rw [hsum, UInt32.toNat_div, htoNat, htwo]

end Stands

section Search

variable {h : ℕ} {p : Option ℕ} (hn : Wf h p t.root) (hnum : Numbered number 256 t.root.toList)
include hn hnum

theorem searchRound_spec (hstands : Stands low high a b) (hbetween : Between number 256 t.root.toList a b)
    (hlt : a < b) : Succeeds (searchRound t low high) fun range => ∃ a' b', Stands range.1 range.2 a' b' ∧
      Between number 256 t.root.toList a' b' ∧ b' - a' < b - a := by
  have hmid := hstands.mid hlt
  obtain ⟨hlow, hhigh, -, hsize⟩ := hstands
  have hlen := hbetween.length
  unfold searchRound
  dsimp only
  generalize (high + low) / 2 = mid at hmid
  have hilen : mid.toNat < t.root.toList.length := by omega
  have hindex : index234 t (toInt32 mid.toNat) = some t.root.toList[mid.toNat] := by
    rw [toInt32_of_fits (by omega) (by omega), index234_spec hn, List.getElem?_eq_getElem hilen]
  have hid : (t.root.toList[mid.toNat]).id = mid + REQUEST_ID_OFFSET ↔
      number t.root.toList[mid.toNat] = 256 + mid.toNat := by
    have hoffset : REQUEST_ID_OFFSET.toNat = 256 := rfl
    rw [← UInt32.toNat_inj, UInt32.toNat_add, hoffset, Nat.mod_eq_of_lt (by omega), Nat.add_comm]
    rfl
  have hofNat : mid = UInt32.ofNat mid.toNat := (UInt32.ofNat_toNat).symm
  rw [hindex, narrow]
  refine succeeds_ok.mpr ?_
  by_cases heq : number t.root.toList[mid.toNat] = 256 + mid.toNat
  · rw [if_pos (hid.mpr heq)]
    have hnext : mid + 1 = UInt32.ofNat (mid.toNat + 1) := by
      rw [UInt32.ofNat_add, ← hofNat]
      rfl
    exact ⟨mid.toNat + 1, b, ⟨hnext, hhigh, by omega, hsize⟩, hbetween.raise hnum (by omega) hilen heq, by omega⟩
  · rw [if_neg (hid.not.mpr heq)]
    exact ⟨a, mid.toNat, ⟨hlow, hofNat, by omega, by omega⟩, hbetween.lower (by omega) (by omega) hilen heq, by omega⟩

theorem searchLow_spec {rounds : ℕ} (hstands : Stands low high a b) (hbetween : Between number 256 t.root.toList a b)
    (hrounds : b - a < rounds) :
    Succeeds (searchLow t rounds low high) fun low =>
      ∃ n, low + 1 = UInt32.ofNat n ∧ n < 2 ^ 31 ∧ Between number 256 t.root.toList n n := by
  induction rounds generalizing low high a b with
  | zero => exact absurd hrounds (Nat.not_lt_zero _)
  | succ rounds ih =>
    have hle := hstands.le
    have hgap : high - low > 1 ↔ a < b := by
      have hone : (1 : UInt32).toNat = 1 := rfl
      rw [gt_iff_lt, UInt32.lt_iff_toNat_lt, hstands.gap, hone]
      omega
    rw [searchLow]
    by_cases hab : a < b
    · rw [if_pos (hgap.mpr hab)]
      refine (searchRound_spec hn hnum hstands hbetween hab).bind ?_
      rintro range ⟨a', b', hstands', hbetween', hless⟩
      exact ih hstands' hbetween' (by omega)
    · obtain rfl : a = b := by omega
      rw [if_neg (hgap.not.mpr hab)]
      exact succeeds_ok.mpr ⟨a, hstands.low, hstands.lt, hbetween⟩

end Search

theorem compare_lt_iff {i j : UInt32} : compare i j = .lt ↔ i < j := compareOfLessAndEq_eq_lt

theorem compare_gt_iff {i j : UInt32} : compare i j = .gt ↔ j < i := by
  rw [← compare_lt_iff, Std.OrientedCmp.gt_iff_lt]

theorem consistent_find (i : UInt32) : Consistent sftpReqcmp (sftpReqfind i) := by
  intro r x hrx hne
  have hlt := compare_lt_iff.mp hrx
  have hle : ¬ r.id < i := fun hlt => hne (compare_gt_iff.mpr hlt)
  refine compare_lt_iff.mpr ?_
  rw [UInt32.lt_iff_toNat_lt] at hlt hle ⊢
  omega

instance : Std.TransCmp sftpReqcmp := inferInstanceAs (Std.TransCmp (compareOn SftpRequest.id))

/-- The request gets the least id that is free, and is put in the tree. -/
theorem sftpAllocRequest_spec (ht : Represents (some sftpReqcmp) t l) (hge : ∀ r ∈ l, 256 ≤ number r)
    (hlen : l.length < 2 ^ 31) :
    Succeeds (sftpAllocRequest (some t)) fun r =>
      IsLeast {id | 256 ≤ id ∧ ∀ x ∈ l, number x ≠ id} (number r.1) ∧
        ∃ l1 l2, l = l1 ++ l2 ∧ Represents (some sftpReqcmp) r.2 (l1 ++ r.1 :: l2) := by
  obtain ⟨h, hn⟩ := ht.holds.wf
  have hlist : t.root.toList = l := ht.holds.toList
  have hnum : Numbered number 256 l := by
    refine ⟨?_, hge⟩
    refine (ht.sorted sftpReqcmp rfl).imp ?_
    intro r x hrx
    exact UInt32.lt_iff_toNat_lt.mp (compare_lt_iff.mp hrx)
  have hcount : count234 t = l.length := by
    rw [count234, hn.countnode, hlist]
  have hstart : Stands (0 - 1) (UInt32.ofNat l.length) 0 l.length := ⟨rfl, rfl, Nat.zero_le _, hlen⟩
  unfold sftpAllocRequest
  rw [Option.getD_some]
  dsimp only
  rw [hcount]
  refine (searchLow_spec hn (hlist ▸ hnum) hstart (hlist ▸ .start _ _ _) (by omega)).bind ?_
  rintro low ⟨n, hlow, hsize, hbetween⟩
  rw [hlist] at hbetween
  have hid : (low + 1 + REQUEST_ID_OFFSET).toNat = 256 + n := by
    have hoffset : REQUEST_ID_OFFSET.toNat = 256 := rfl
    rw [hlow, UInt32.toNat_add, toNat_ofNat hsize, hoffset, Nat.mod_eq_of_lt (by omega), Nat.add_comm]
  have hleast := hbetween.isLeast hnum
  generalize low + 1 + REQUEST_ID_OFFSET = i at hid
  obtain ⟨l1, o, l2, hs⟩ := exists_sought_of (ht.sorted sftpReqcmp rfl) (consistent_find i)
  have hnone : o = none := by
    cases o with
    | none => rfl
    | some x =>
      have hx : x ∈ l := by
        rw [hs.append]
        simp
      have heq : i = x.id := Std.LawfulEqOrd.eq_of_compare (hs.eq x rfl)
      exact absurd ((congrArg UInt32.toNat heq).symm.trans hid) (hleast.1.2 x hx)
  subst hnone
  rw [find234, findrelpos234_eq ht.holds hs, if_neg (by simp)]
  obtain ⟨t', hadd, ht'⟩ := @add234_none _ t l l1 l2 ⟨i, false, none⟩ sftpReqcmp _ ht hs
  rw [hadd]
  refine succeeds_ok.mpr ⟨?_, l1, l2, ?_, ht'⟩
  · show IsLeast _ i.toNat
    rw [hid]
    exact hleast
  · have happend : l = l1 ++ l2 := hs.append
    exact happend

/-- Both searches find the least id that is not in use: that of the ids of channels for every tree that is
sorted by them, and that of the ids of requests for every tree of requests. -/
theorem lowest_ids :
    (∀ {α : Type} {h : ℕ} {p : Option ℕ} (channels : Tree234.Tree α) (localid : α → UInt32) (ss : Search234State α),
      Wf h p channels.root → Numbered (fun c => (localid c).toNat) 256 channels.root.toList →
      channels.root.toList.length < 2 ^ 31 →
      ∃ id, allocChannelIdGeneral ss channels localid = some id ∧
        IsLeast {id | 256 ≤ id ∧ ∀ c ∈ channels.root.toList, (localid c).toNat ≠ id} id.toNat) ∧
    ∀ (sftpRequests : Option (Tree234.Tree SftpRequest)) (l : List SftpRequest),
      Represents (some sftpReqcmp) (sftpRequests.getD (newtree234 (some sftpReqcmp))) l →
      (∀ r ∈ l, 256 ≤ number r) → l.length < 2 ^ 31 →
      Succeeds (sftpAllocRequest sftpRequests) fun r =>
        IsLeast {id | 256 ≤ id ∧ ∀ x ∈ l, number x ≠ id} (number r.1) ∧
          ∃ l1 l2, l = l1 ++ l2 ∧ Represents (some sftpReqcmp) r.2 (l1 ++ r.1 :: l2) :=
  ⟨fun _ _ ss hn hnum hlen => allocChannelIdGeneral_spec hn hnum hlen ss,
    fun _ _ ht hge hlen => sftpAllocRequest_spec ht hge hlen⟩

/-- A tree with the channels 256 and 258 -/
def twoChannels : Tree234.Tree UInt32 :=
  ⟨.node 0 none .null .null .null .null 0 0 0 0 (some 256) (some 258) none, none, 1⟩

/-- The channels 256 and 258 leave 257, and without requests 256 is free. -/
theorem lowest_ids_gap :
    (∃ n, allocChannelIdGeneral ⟨none, 0, 0, 0, 0, 0, .null⟩ twoChannels id = some n ∧
      IsLeast {i | 256 ≤ i ∧ ∀ c ∈ [(256 : UInt32), 258], c.toNat ≠ i} n.toNat) ∧
    Succeeds (sftpAllocRequest none) fun r =>
      IsLeast {i | 256 ≤ i ∧ ∀ x ∈ ([] : List SftpRequest), number x ≠ i} (number r.1) := by
  constructor
  · refine lowest_ids.1 twoChannels id ⟨none, 0, 0, 0, 0, 0, .null⟩
      (.three .null .null .null rfl rfl rfl : Wf 1 none _) ⟨?_, ?_⟩ (by decide)
    · show List.Pairwise (fun a b : UInt32 => a.toNat < b.toNat) [256, 258]
      simp
    · show ∀ a ∈ [(256 : UInt32), 258], 256 ≤ a.toNat
      simp
  · refine (lowest_ids.2 none [] (represents_newtree234 _) (by simp) (by simp)).mono ?_
    intro r hr
    exact hr.1

end PuttyNd.Sftp.RequestTree
