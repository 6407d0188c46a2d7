import CrossBuild.Proofs.KeyOrder
import CrossBuild.Proofs.Pruning

/-!
# What a download changes

A download that succeeds lays the bundles that its request selects over the workspace, one after another.
It touches no other file, and of the staging directory it leaves what leads to the files that somebody
else had put there.
-/

namespace CrossBuild.Proofs
open Archive Handoff

variable {σ : Type}

/-! ### Selected entries -/

section Bundles

variable {content : Memory} {bundles : List (String × ByteArray)}
  (hdata : ∀ b ∈ bundles, (content.get? b.1).map (·.data) = some b.2)

include hdata

end Bundles

/-- All that is unpacked below a directory without links stands in directories. -/
lemma Unpacked.rooted {workspace : String} {w : Place} {now : Instant}
    {bundles : List (String × ByteArray)} {t t' : FileTree} (h : Unpacked workspace now bundles t t')
    (hclean : IsClean t workspace w) (ht : Rooted t) : Rooted t' := by
  have hbears : Bears now (fun t => IsClean t workspace w ∧ Rooted t) workspace fun _ => True := by
    refine bears_of_edits now (fun h => h.1) ?_
    rintro t t' names ⟨hclean, ht⟩ hne hedit
    exact ⟨(hedit.within hne hclean.linkFree).isClean hclean, hedit.rooted ht⟩
  exact (hbears.unpacked h (fun _ _ _ _ => trivial) ⟨hclean, ht⟩).2

lemma eq_of_get?_sampleTree {q : Place} (hne : q ≠ []) (h : (sampleTree false none []).get? q ≠ none) :
    q = ["w"] := by
  obtain ⟨node, hnode⟩ := Option.ne_none_iff_exists'.mp h
  have hget : (sampleTree false none []).nodes.get? q = some node := by simpa [FileTree.get?, hne] using hnode
  have hmem := (get?_eq_some _ _ _).mp hget
  have hnodes : (sampleTree false none []).nodes.entries = [(["w"], .directory 0o755)] := by rfl
  rw [hnodes, List.mem_singleton] at hmem
  exact congrArg Prod.fst hmem

lemma rooted_sampleTree : Rooted (sampleTree false none []) := by
  intro place name hthere
  have hplace := eq_of_get?_sampleTree (by simp) hthere
  obtain rfl : place = [] := by simpa using congrArg List.dropLast hplace
  exact ⟨_, get?_root _⟩

end CrossBuild.Proofs
