import ColorWords.Proofs.Color.Reachable
import ColorWords.Proofs.Palette.Closest
import ColorWords.Proofs.Search.Optimal

/-!
# Scores of reachable colors

Whatever floats the operations of the library are given, and whatever functions the conversions
are, the colors that they lead to are normal. So all scores that a search or a scan for the
closest name compares are numbers of at most 3, and neither of them misses its first least score.
-/

namespace ColorWords

open Scalar

namespace Color

open Search

/-- Reachable colors are normal, and operations that do not set alpha keep it exactly. Squared
distances between them are numbers from 0 to 3 and, if differences are the roots of these, those
are numbers from 0 to 2. Therefore among the combinations tried for a reachable target there always
is a first one with the least distance, which a search finds if a selection has room for as many
colors as are mixed, and the closest name is that of the first color with the least difference. -/
theorem scores_of_reachable [ColorModel Float] [GamutMap Float] [Numeral Float]
    (hdifference : ∀ c d : Lab Float,
      ColorModel.difference c d = Elementary.squareRoot (c.distanceSquared d)) :
    (∀ c : Color Float, c.Reachable → c.IsNormal) ∧
    (∀ c : Color Float, c.Reachable →
      (∀ amount, (c.lighten amount).alpha = c.alpha ∧ (c.darken amount).alpha = c.alpha ∧
        (c.enrich amount).alpha = c.alpha ∧ (c.dullen amount).alpha = c.alpha) ∧
      c.toGamut.alpha = c.alpha ∧
      ∀ intensity : Intensity, (intensity.apply c).alpha = c.alpha) ∧
    (∀ c d : Color Float, c.Reachable → d.Reachable → Within 0.0 3.0 (c.distanceSquared d)) ∧
    (∀ (palette : Palette Float) (target : Color Float) (length : ℕ), target.Reachable →
      (∀ intensity indices,
        Within 0.0 3.0 (tupleScore palette.candidates target intensity indices)) ∧
      (palette.candidates ≠ [] →
        ∃ found, best? palette.candidates.toArray target (max length 1) = some found ∧
          (length ≤ maxSelection → palette.search? target length = .ok (some found)) ∧
          found.distance = tupleScore palette.candidates target found.intensity found.indices ∧
          ∀ intensity indices, IsTuple palette.candidates.length (max length 1) indices →
            Nat.ofDigits palette.candidates.length indices <
              tupleCount palette.candidates.length (max length 1) →
            found.distance ≤ tupleScore palette.candidates target intensity indices ∧
              (Precedes palette.candidates.length intensity indices found →
                found.distance < tupleScore palette.candidates target intensity indices))) ∧
    ∀ (palette : Palette Float) (c : Color Float), palette.IsReachable → c.Reachable →
      (∀ entry ∈ palette.entries, Within 0.0 2.0 (c.difference entry.2)) ∧
      (palette.entries ≠ [] →
        ∃ i, palette.closestName? c = some (palette.entries.get i).1 ∧
          palette.IsFirstClosest c i) := by
  refine ⟨fun c hc => hc.isNormal, fun c hc => ?_,
    fun c d hc hd => hc.isNormal.within_distanceSquared hd.isNormal,
    fun palette target length htarget => ⟨fun intensity indices => ?_, fun hcandidates => ?_⟩,
    fun palette c hpalette hc => ?_⟩
  · have hnormal := hc.isNormal
    exact ⟨fun amount => ⟨hnormal.alpha_make _, hnormal.alpha_make _, hnormal.alpha_make _,
      hnormal.alpha_make _⟩, hnormal.alpha_make _, hnormal.alpha_apply⟩
  · exact ((isNormal_mix _).apply intensity).within_distanceSquared htarget.isNormal
  · obtain ⟨found, hfound, -, hdistance, hleast⟩ :=
      best?_spec hcandidates htarget.isNormal (max length 1)
    refine ⟨found, hfound, fun hlength => ?_, hdistance, hleast⟩
    rw [Palette.search?_of_ne_nil hcandidates hlength, hfound]
  · have hrange : ∀ entry ∈ palette.entries, Within 0.0 2.0 (c.difference entry.2) := by
      intro entry hentry
      rw [Color.difference, hdifference]
      exact hc.isNormal.within_distance (hpalette entry hentry).isNormal
    have hlt : (2.0 : Float) ≤ 3.0 := by decide
    exact ⟨hrange, fun hentries => Palette.exists_closestName? (fun entry hentry =>
      Binary64.belowInfinity_of_within
        ⟨(hrange entry hentry).1, OrderedScalar.le_trans (hrange entry hentry).2 hlt⟩) hentries⟩

/-- Not a number, infinity and negative zero lead to a normal color that enriching without limit
keeps normal. Its distance to red is a number up to 3, a search for it among the standard colors
finds a combination, and it has a closest name. -/
theorem scores_of_reachable_infinite :
    let start : Color Float := make ⟨0.0 / 0.0, 1.0 / 0.0, -0.0⟩ 0.5
    let c := start.enrich (1.0 / 0.0)
    let palette : Palette Float := Palette.standard
    (∀ c d : Lab Float,
      ColorModel.difference c d = Elementary.squareRoot (c.distanceSquared d)) ∧
    c.IsNormal ∧ c.alpha = start.alpha ∧
    Within 0.0 3.0 (c.distanceSquared (palette.lookup "red")) ∧
    (∃ found, palette.search? c 2 = .ok (some found)) ∧
    ∃ name, palette.closestName? c = some name := by
  intro start c palette
  have hdifference (c d : Lab Float) :
      ColorModel.difference c d = Elementary.squareRoot (c.distanceSquared d) := rfl
  have hstart : start.Reachable := .make _ _
  have hc : c.Reachable := hstart.enrich _
  have hpalette : palette.IsReachable := Palette.isReachable_standard
  have hcandidates : palette.candidates ≠ [] :=
    List.ne_nil_of_length_eq_add_one Palette.length_candidates_standard
  have hentries : palette.entries ≠ [] := List.cons_ne_nil _ _
  obtain ⟨hnormal, halpha, hdistance, hsearch, hclosest⟩ := scores_of_reachable hdifference
  obtain ⟨found, -, hfound, -⟩ := (hsearch palette c 2 hc).2 hcandidates
  obtain ⟨i, hname, -⟩ := (hclosest palette c hpalette hc).2 hentries
  exact ⟨hdifference, hnormal c hc, ((halpha start hstart).1 _).2.2.1,
    hdistance c _ hc (.lookup hpalette "red"), ⟨found, hfound (by decide)⟩, ⟨_, hname⟩⟩

end Color

end ColorWords
