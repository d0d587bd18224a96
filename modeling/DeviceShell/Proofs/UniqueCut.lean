import DeviceShell.Proofs.Places
import Mathlib.Data.List.Chain
import Mathlib.Data.List.Pairwise
import Mathlib.Data.List.Sort

/-!
# The only cut of a line into words

`Cut` says of stretches of sixteen-bit units that they are the words of a text: they read what the
text holds at their places, hold no blank unit, stand apart, and leave out nothing but blank units.
It knows neither characters nor a scanner, and a stretch may as well begin or end inside a pair of
units. A run of units without a blank lies inside one stretch of any cut (`Cut.exists_around`), so
each stretch of a cut is one of every other cut; being in order, two cuts are equal. The gaps and
words that the scanner finds are a cut, which is put together from the right end of the line on.
-/
namespace DeviceShell.Proofs.UniqueCut

open Places (units)
open Text (unitCount unitsOf)
open Words (Apart Gap Segmented Word spanOf)

/-- The units of the blank characters. -/
def blankUnits : List Nat := Grammar.blanks.flatMap unitsOf

/-- Units and the offset at which they stand. -/
@[ext]
structure Stretch where
  position : Nat
  units : List Nat

namespace Stretch

/-- The offset just behind the stretch. -/
def stop (p : Stretch) : Nat := p.position + p.units.length

def Covers (p : Stretch) (i : Nat) : Prop := p.position ≤ i ∧ i < p.stop

/-- The one stretch ends in front of where the other starts, and does not touch it. -/
def Before (p q : Stretch) : Prop := p.stop < q.position

def ofToken (t : Token) : Stretch := ⟨t.position, Places.units t.text⟩

def ofSpan (w : Nat × List Char) : Stretch := ⟨w.1, w.2.flatMap unitsOf⟩

theorem position_le_stop (p : Stretch) : p.position ≤ p.stop := Nat.le_add_right _ _

theorem Before.trans {p q r : Stretch} (hpq : p.Before q) (hqr : q.Before r) : p.Before r := by
  have hq := q.position_le_stop
  unfold Before at *
  omega

instance : Trans Before Before Before := ⟨Before.trans⟩

instance : Std.Irrefl Before := ⟨fun p h => Nat.not_lt.mpr p.position_le_stop h⟩

instance : Std.Antisymm Before := ⟨fun _ _ hpq hqp => absurd (hpq.trans hqp) (irrefl _)⟩

end Stretch

open Stretch (Before)

/-- At least one blank unit stands behind the one stretch and in front of the other. -/
def Parted (us : List Nat) (p q : Stretch) : Prop :=
  ∃ i u, p.stop ≤ i ∧ i < q.position ∧ us[i]? = some u ∧ u ∈ blankUnits

/-- The stretches are the words that a text holds from an offset on. -/
structure Cut (us : List Nat) (start : Nat) (ps : List Stretch) : Prop where
  solid : ∀ p ∈ ps, p.units ≠ [] ∧ ∀ u ∈ p.units, u ∉ blankUnits
  reads : ∀ p ∈ ps, us.extract p.position p.stop = p.units
  later : ∀ p ∈ ps, start ≤ p.position
  parted : ps.IsChain (Parted us)
  blank : ∀ i u, start ≤ i → us[i]? = some u → (∀ p ∈ ps, ¬ p.Covers i) → u ∈ blankUnits

section
variable {us : List Nat} {start : Nat} {p q : Stretch} {ps qs : List Stretch}

theorem before_of_parted (h : Parted us p q) : p.Before q := by
  obtain ⟨i, u, hstop, hposition, -, -⟩ := h
  exact Nat.lt_of_le_of_lt hstop hposition

theorem Cut.pairwise (h : Cut us start ps) : ps.Pairwise Before :=
  List.isChain_iff_pairwise.mp (h.parted.imp fun _ _ => before_of_parted)

/-- What a stretch covers is not blank. -/
theorem Cut.exists_solid (h : Cut us start ps) (hp : p ∈ ps) {i : Nat} (hi : p.Covers i) :
    ∃ u, us[i]? = some u ∧ u ∉ blankUnits := by
  obtain ⟨hlow, hhigh⟩ := hi
  have hinside : i - p.position < p.units.length := by
    unfold Stretch.stop at hhigh
    omega
  refine ⟨p.units[i - p.position], ?_, (h.solid p hp).2 _ (List.getElem_mem hinside)⟩
  have hread := List.getElem?_eq_getElem hinside
  rw [← hread, ← h.reads p hp, List.extract_eq_take_drop, List.getElem?_take_of_lt (by omega),
    List.getElem?_drop, Nat.add_sub_cancel' hlow]

theorem Cut.covers_position (h : Cut us start ps) (hp : p ∈ ps) : p.Covers p.position := by
  have hlength := List.length_pos_iff.mpr (h.solid p hp).1
  refine ⟨Nat.le_refl _, ?_⟩
  unfold Stretch.stop
  omega

theorem Cut.before_or_before (h : Cut us start ps) (hp : p ∈ ps) (hq : q ∈ ps) (hne : p ≠ q) :
    p.Before q ∨ q.Before p := by
  have hpairwise : ps.Pairwise fun p q => p.Before q ∨ q.Before p := h.pairwise.imp .inl
  have : Std.Symm fun p q : Stretch => p.Before q ∨ q.Before p := ⟨fun _ _ => Or.symm⟩
  exact hpairwise.forall hp hq hne

/-- No unit is covered twice. -/
theorem Cut.eq_of_covers (h : Cut us start ps) (hp : p ∈ ps) (hq : q ∈ ps) {i : Nat}
    (hpi : p.Covers i) (hqi : q.Covers i) : p = q := by
  by_contra hne
  obtain ⟨hplow, hphigh⟩ := hpi
  obtain ⟨hqlow, hqhigh⟩ := hqi
  have hapart := h.before_or_before hp hq hne
  unfold Before at hapart
  omega

/-- A run of units without a blank lies inside one stretch. -/
theorem Cut.exists_around (h : Cut us start ps) {i j : Nat} (hstart : start ≤ i) (hij : i < j)
    (hsolid : ∀ k, i ≤ k → k < j → ∃ u, us[k]? = some u ∧ u ∉ blankUnits) :
    ∃ p ∈ ps, p.position ≤ i ∧ j ≤ p.stop := by
  have hcovered : ∀ k, i ≤ k → k < j → ∃ p ∈ ps, p.Covers k := by
    intro k hik hkj
    obtain ⟨u, hu, hnot⟩ := hsolid k hik hkj
    by_contra hnone
    apply hnot
    exact h.blank k u (hstart.trans hik) hu fun p hp hc => hnone ⟨p, hp, hc⟩
  obtain ⟨p, hp, hlow, hhigh⟩ := hcovered i (Nat.le_refl i) hij
  refine ⟨p, hp, hlow, ?_⟩
  by_contra hj
  -- The unit behind the stretch would be in a stretch of its own, which touches this one.
  obtain ⟨q, hq, hqlow, hqhigh⟩ := hcovered p.stop (by omega) (by omega)
  have hne : p ≠ q := by
    rintro rfl
    omega
  have hapart := h.before_or_before hp hq hne
  unfold Before at hapart
  omega

theorem Cut.subset (h : Cut us start ps) (h' : Cut us start qs) : ps ⊆ qs := by
  intro p hp
  have hpcovers := h.covers_position hp
  obtain ⟨q, hq, hqlow, hqhigh⟩ := h'.exists_around (h.later p hp) hpcovers.2
    fun k hlow hhigh => h.exists_solid hp ⟨hlow, hhigh⟩
  -- What lies around this stretch lies inside a stretch of its own cut, which can only be this one.
  obtain ⟨p', hp', hlow', hhigh'⟩ := h.exists_around (h'.later q hq) (h'.covers_position hq).2
    fun k hlow hhigh => h'.exists_solid hq ⟨hlow, hhigh⟩
  have hsame : p' = p := by
    refine h.eq_of_covers hp' hp (i := p.position) ⟨hlow'.trans hqlow, ?_⟩ hpcovers
    exact Nat.lt_of_lt_of_le hpcovers.2 (hqhigh.trans hhigh')
  rw [hsame] at hlow' hhigh'
  have hposition : p.position = q.position := Nat.le_antisymm hlow' hqlow
  have hstop : p.stop = q.stop := Nat.le_antisymm hqhigh hhigh'
  have hunits : p.units = q.units := by
    rw [← h.reads p hp, ← h'.reads q hq, hposition, hstop]
  rwa [Stretch.ext hposition hunits]

theorem Cut.unique (h : Cut us start ps) (h' : Cut us start qs) : ps = qs :=
  List.Subset.antisymm_of_pairwise h.pairwise h'.pairwise (h.subset h') (h'.subset h)

theorem Cut.nil (h : ∀ i u, start ≤ i → us[i]? = some u → u ∈ blankUnits) : Cut us start [] where
  solid := fun _ hp => absurd hp List.not_mem_nil
  reads := fun _ hp => absurd hp List.not_mem_nil
  later := fun _ hp => absurd hp List.not_mem_nil
  parted := .nil
  blank := fun i u hi hu _ => h i u hi hu

/-- One more stretch in front of a cut, with nothing but blank units before it. -/
theorem Cut.cons (h : Cut us p.stop ps) (hsolid : p.units ≠ [] ∧ ∀ u ∈ p.units, u ∉ blankUnits)
    (hreads : us.extract p.position p.stop = p.units) (hstart : start ≤ p.position)
    (hgap : ∀ i u, start ≤ i → i < p.position → us[i]? = some u → u ∈ blankUnits)
    (hnext : ∀ q ∈ ps, p.Before q) : Cut us start (p :: ps) where
  solid := List.forall_mem_cons.mpr ⟨hsolid, h.solid⟩
  reads := List.forall_mem_cons.mpr ⟨hreads, h.reads⟩
  later := by
    refine List.forall_mem_cons.mpr ⟨hstart, fun q hq => ?_⟩
    exact (hstart.trans p.position_le_stop).trans (h.later q hq)
  parted := by
    refine List.isChain_cons.mpr ⟨fun q hq => ?_, h.parted⟩
    have hq := List.mem_of_mem_head? hq
    have hbefore : p.stop < q.position := hnext q hq
    -- Something stands right behind the stretch, for another one stands further on.
    obtain ⟨v, hv, -⟩ := h.exists_solid hq (h.covers_position hq)
    obtain ⟨hinside, -⟩ := List.getElem?_eq_some_iff.mp hv
    have hu : us[p.stop]? = some us[p.stop] := List.getElem?_eq_getElem (by omega)
    refine ⟨p.stop, us[p.stop], Nat.le_refl _, hbefore, hu, ?_⟩
    apply h.blank p.stop _ (Nat.le_refl _) hu
    intro r hr hcovers
    exact Nat.not_lt.mpr hcovers.1 (hnext r hr)
  blank := by
    intro i u hi hu hfree
    obtain ⟨hp, hps⟩ := List.forall_mem_cons.mp hfree
    by_cases hlow : i < p.position
    · exact hgap i u hi hlow hu
    · refine h.blank i u ?_ hu hps
      by_contra hhigh
      exact hp ⟨Nat.not_lt.mp hlow, Nat.not_le.mp hhigh⟩

theorem Cut.tail (h : Cut us start (p :: ps)) : Cut us p.stop ps where
  solid := (List.forall_mem_cons.mp h.solid).2
  reads := (List.forall_mem_cons.mp h.reads).2
  later := fun _ hq => Nat.le_of_lt ((List.pairwise_cons.mp h.pairwise).1 _ hq)
  parted := (List.isChain_cons.mp h.parted).2
  blank := by
    intro i u hi hu hfree
    have hstart := h.later p List.mem_cons_self
    refine h.blank i u ((hstart.trans p.position_le_stop).trans hi) hu ?_
    exact List.forall_mem_cons.mpr ⟨fun hcovers => Nat.not_le.mpr hcovers.2 hi, hfree⟩

end

/-- What a text holds between the stretches, from an offset to its end. -/
def gaps (us : List Nat) (start : Nat) : List Stretch → List (List Nat)
  | [] => [us.drop start]
  | p :: ps => us.extract start p.position :: gaps us p.stop ps

/-- Gaps and words in turn, a gap first and last. -/
def weave : List (List Nat) → List (List Nat) → List Nat
  | gap :: gaps, word :: words => gap ++ word ++ weave gaps words
  | gap :: _, [] => gap
  | [], _ => []

theorem extract_append_drop {us : List Nat} {i j : Nat} (h : i ≤ j) :
    us.extract i j ++ us.drop j = us.drop i := by
  have hdrop : us.drop j = (us.drop i).drop (j - i) := by
    rw [List.drop_drop, Nat.add_sub_cancel' h]
  rw [List.extract_eq_take_drop, hdrop, List.take_append_drop]

theorem weave_gaps {us : List Nat} {start : Nat} {ps : List Stretch} (h : Cut us start ps) :
    weave (gaps us start ps) (ps.map Stretch.units) = us.drop start := by
  induction ps generalizing start with
  | nil => rfl
  | cons p ps ih =>
    have hstart := h.later p List.mem_cons_self
    have hreads := h.reads p List.mem_cons_self
    rw [gaps, List.map_cons, weave, ih h.tail, ← hreads, List.append_assoc,
      extract_append_drop p.position_le_stop, extract_append_drop hstart]

theorem getElem?_of_mem_extract {us : List Nat} {i j u : Nat} (h : u ∈ us.extract i j) :
    ∃ k, i ≤ k ∧ k < j ∧ us[k]? = some u := by
  rw [List.extract_eq_take_drop] at h
  obtain ⟨k, hk⟩ := List.mem_iff_getElem?.mp h
  have hinside : k < j - i := by
    obtain ⟨hlength, -⟩ := List.getElem?_eq_some_iff.mp hk
    rw [List.length_take] at hlength
    omega
  rw [List.getElem?_take_of_lt hinside, List.getElem?_drop] at hk
  exact ⟨i + k, by omega, by omega, hk⟩

/-- Nothing but blank units is between the stretches of a cut. -/
theorem mem_blankUnits_of_gap {us : List Nat} {start : Nat} {ps : List Stretch}
    (h : Cut us start ps) {gap : List Nat} (hgap : gap ∈ gaps us start ps) {u : Nat}
    (hu : u ∈ gap) : u ∈ blankUnits := by
  induction ps generalizing start with
  | nil =>
    rw [gaps, List.mem_singleton] at hgap
    subst hgap
    obtain ⟨k, hk⟩ := List.mem_iff_getElem?.mp hu
    rw [List.getElem?_drop] at hk
    exact h.blank (start + k) u (Nat.le_add_right _ _) hk fun _ hp => absurd hp List.not_mem_nil
  | cons p ps ih =>
    rw [gaps] at hgap
    rcases List.mem_cons.mp hgap with rfl | hgap
    · obtain ⟨k, hlow, hhigh, hk⟩ := getElem?_of_mem_extract hu
      refine h.blank k u hlow hk (List.forall_mem_cons.mpr ⟨?_, fun q hq hcovers => ?_⟩)
      · intro hcovers
        exact Nat.not_lt.mpr hcovers.1 hhigh
      · -- Every other stretch starts further on.
        have hbefore : p.stop < q.position := (List.pairwise_cons.mp h.pairwise).1 q hq
        have hp := p.position_le_stop
        have hq := hcovers.1
        omega
    · exact ih h.tail hgap

theorem mem_blankUnits_of_blank {c : Char} (hc : Text.isBlank c = true) {u : Nat}
    (hu : u ∈ unitsOf c) : u ∈ blankUnits :=
  List.mem_flatMap.mpr ⟨c, Grammar.isBlank_iff_mem_blanks.mp hc, hu⟩

/-- No unit of another character is a blank one, nor is one half of a pair. -/
theorem not_mem_blankUnits_of_solid {c : Char} (hc : Text.isBlank c = false) {u : Nat}
    (hu : u ∈ unitsOf c) : u ∉ blankUnits := by
  intro hblank
  obtain ⟨d, hd, hud⟩ := List.mem_flatMap.mp hblank
  have hall : (Grammar.blanks.all fun d => d.toNat < 0x10000) = true := by decide
  have hbasic : d.toNat < 0x10000 := of_decide_eq_true (List.all_eq_true.mp hall d hd)
  have hvalid := Text.toNat_valid c
  have hvalid' := Text.toNat_valid d
  rw [unitsOf, if_pos hbasic, List.mem_singleton] at hud
  rw [unitsOf] at hu
  split at hu
  · have hsame : c = d := Char.toNat_inj.mp ((List.mem_singleton.mp hu).symm.trans hud)
    rw [hsame, Grammar.isBlank_iff_mem_blanks.mpr hd] at hc
    cases hc
  · simp only [List.mem_cons, List.not_mem_nil, or_false] at hu
    omega

theorem mem_blankUnits_of_mem_gap {gap : List Char} (hg : Gap gap) {u : Nat}
    (hu : u ∈ gap.flatMap unitsOf) : u ∈ blankUnits := by
  obtain ⟨c, hc, huc⟩ := List.mem_flatMap.mp hu
  exact mem_blankUnits_of_blank (hg c hc) huc

theorem solid_of_word {word : List Char} (hw : Word word) :
    word.flatMap unitsOf ≠ [] ∧ ∀ u ∈ word.flatMap unitsOf, u ∉ blankUnits := by
  constructor
  · apply List.ne_nil_of_length_pos
    obtain ⟨c, cs, rfl⟩ := List.exists_cons_of_ne_nil hw.nonempty
    have := Text.unitWidth_pos c
    rw [Text.length_flatMap_unitsOf, Text.unitCount_cons]
    omega
  · intro u hu
    obtain ⟨c, hc, huc⟩ := List.mem_flatMap.mp hu
    exact not_mem_blankUnits_of_solid (hw.solid c hc) huc

/-- A gap and a word in front of a rest that is cut already. -/
theorem cut_word {front gap word rest : List Nat} {ps : List Stretch}
    (h : Cut (front ++ gap ++ word ++ rest) (front ++ gap ++ word).length ps)
    (hgap : ∀ u ∈ gap, u ∈ blankUnits) (hword : word ≠ [] ∧ ∀ u ∈ word, u ∉ blankUnits)
    (hnext : ∀ q ∈ ps, (front ++ gap ++ word).length < q.position) :
    Cut (front ++ gap ++ word ++ rest) front.length (⟨(front ++ gap).length, word⟩ :: ps) := by
  have hstop : (⟨(front ++ gap).length, word⟩ : Stretch).stop = (front ++ gap ++ word).length :=
    List.length_append.symm
  have hgaplength : (front ++ gap).length = front.length + gap.length := List.length_append
  refine Cut.cons (by rwa [hstop]) hword ?_ ?_ ?_ fun q hq => ?_
  · dsimp only [Stretch.stop]
    rw [List.extract_eq_take_drop, List.append_assoc (front ++ gap), List.drop_left,
      Nat.add_sub_cancel_left, List.take_left]
  · dsimp only
    omega
  · intro i u hlow hhigh hu
    dsimp only at hhigh
    rw [List.append_assoc, List.append_assoc, List.getElem?_append_right hlow,
      List.getElem?_append_left (by omega)] at hu
    exact hgap u (List.mem_of_getElem? hu)
  · rw [Before, hstop]
    exact hnext q hq

/-- The words of a text, behind anything that stands in front of it. -/
theorem cut_of_segmented {offset : Nat} {cs : List Char} {ws : List (Nat × List Char)}
    (h : Segmented offset cs ws) (front : List Nat) (hfront : front.length = offset) :
    Cut (front ++ cs.flatMap unitsOf) offset (ws.map Stretch.ofSpan) := by
  induction h generalizing front with
  | @gap offset gap hg =>
    refine Cut.nil fun i u hi hu => ?_
    rw [List.getElem?_append_right (by omega)] at hu
    exact mem_blankUnits_of_mem_gap hg (List.mem_of_getElem? hu)
  | @word offset gap word rest ws hg hw hr h ih =>
    have hgap : (front ++ gap.flatMap unitsOf).length = offset + unitCount gap := by
      rw [List.length_append, hfront, Text.length_flatMap_unitsOf]
    have hword : (front ++ gap.flatMap unitsOf ++ word.flatMap unitsOf).length =
        offset + unitCount gap + unitCount word := by
      rw [List.length_append, hgap, Text.length_flatMap_unitsOf]
    have hcut := ih _ hword
    rw [← hword] at hcut
    have hnext : ∀ q ∈ ws.map Stretch.ofSpan,
        (front ++ gap.flatMap unitsOf ++ word.flatMap unitsOf).length < q.position := by
      intro q hq
      obtain ⟨w, hmem, rfl⟩ := List.mem_map.mp hq
      rw [← Words.words_of_segmented h] at hmem
      rw [hword]
      exact Words.offset_lt_of_mem_words hr hmem
    have hwhole := cut_word hcut (fun _ => mem_blankUnits_of_mem_gap hg) (solid_of_word hw) hnext
    rw [List.flatMap_append, List.flatMap_append, ← List.append_assoc, ← List.append_assoc]
    rwa [hfront, hgap] at hwhole

theorem cut_ofLine (line : String) :
    Cut (units line) 0 ((Token.ofLine line).map Stretch.ofToken) := by
  have hsegmented : Segmented 0 line.toList ((Token.ofLine line).map spanOf) :=
    Words.ofLine_eq_iff.mp rfl
  have hcut := cut_of_segmented hsegmented [] rfl
  rwa [List.nil_append, List.map_map] at hcut

theorem ofToken_injective {t u : Token} (h : Stretch.ofToken t = Stretch.ofToken u) : t = u := by
  obtain ⟨hposition, hunits⟩ := Stretch.mk.inj h
  have htext := congrArg Text.ofUnits hunits
  rw [units, units, Text.ofUnits_flatMap, Text.ofUnits_flatMap, String.toList_inj] at htext
  cases t
  cases u
  rw [Token.mk.injEq]
  exact ⟨htext, hposition⟩

theorem cut_iff {line : String} {ps : List Stretch} :
    Cut (units line) 0 ps ↔ ps = (Token.ofLine line).map Stretch.ofToken := by
  constructor
  · intro h
    exact h.unique (cut_ofLine line)
  · rintro rfl
    exact cut_ofLine line

/-- The words of a line with their offsets are its only cut, whether a cut is looked for among texts
or among any units. The gaps hold blanks only and give the line back, word by word. No word could be
longer: units without a blank between them are in one word. -/
theorem words_only_cut (line : String) :
    (∀ ps : List Stretch, Cut (units line) 0 ps ↔ ps = (Token.ofLine line).map Stretch.ofToken) ∧
    (∀ ts : List Token, Cut (units line) 0 (ts.map Stretch.ofToken) ↔ ts = Token.ofLine line) ∧
    weave (gaps (units line) 0 ((Token.ofLine line).map Stretch.ofToken))
      ((Token.ofLine line).map fun t => units t.text) = units line ∧
    (∀ gap ∈ gaps (units line) 0 ((Token.ofLine line).map Stretch.ofToken), ∀ u ∈ gap,
      u ∈ blankUnits) ∧
    ∀ i j, i < j → (∀ k, i ≤ k → k < j → ∃ u, (units line)[k]? = some u ∧ u ∉ blankUnits) →
      ∃ t ∈ Token.ofLine line, t.position ≤ i ∧ j ≤ t.stop := by
  have hcut := cut_ofLine line
  refine ⟨fun ps => cut_iff, fun ts => ?_, ?_, fun gap hgap u hu => ?_, fun i j hij hsolid => ?_⟩
  · rw [cut_iff]
    exact List.map_inj_right fun _ _ => ofToken_injective
  · have hweave := weave_gaps hcut
    rwa [List.map_map, List.drop_zero] at hweave
  · exact mem_blankUnits_of_gap hcut hgap hu
  · obtain ⟨p, hp, hlow, hhigh⟩ := hcut.exists_around (Nat.zero_le i) hij hsolid
    obtain ⟨t, ht, rfl⟩ := List.mem_map.mp hp
    refine ⟨t, ht, hlow, ?_⟩
    rwa [Stretch.stop, Stretch.ofToken, Places.length_units] at hhigh

/-- A character of two units in front of a letter: its second half and the letter are in one word. -/
theorem words_only_cut_astral :
    Cut (units "😀a\u3000b") 0 [⟨0, [0xD83D, 0xDE00, 0x61]⟩, ⟨4, [0x62]⟩] ∧
    (∀ k, 1 ≤ k → k < 3 → ∃ u, (units "😀a\u3000b")[k]? = some u ∧ u ∉ blankUnits) ∧
    ∃ t ∈ Token.ofLine "😀a\u3000b", t.position ≤ 1 ∧ 3 ≤ t.stop := by
  have hsolid : ∀ k, 1 ≤ k → k < 3 →
      ∃ u, (units "😀a\u3000b")[k]? = some u ∧ u ∉ blankUnits := by
    intro k hlow hhigh
    obtain rfl | rfl : k = 1 ∨ k = 2 := by omega
    · exact ⟨0xDE00, rfl, by decide⟩
    · exact ⟨0x61, rfl, by decide⟩
  obtain ⟨hcut, -, -, -, hwhole⟩ := words_only_cut "😀a\u3000b"
  exact ⟨(hcut _).mpr rfl, hsolid, hwhole 1 3 (by decide) hsolid⟩

end DeviceShell.Proofs.UniqueCut
