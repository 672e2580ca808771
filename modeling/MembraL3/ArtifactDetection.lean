/-
The bytes that tell a type.

Where the extension is not known, `detect_artifact_type` compares the first bytes of the
content with three signatures, if there are four of them.  The first two signatures end
there, the third at the eighth byte.

* `matchesAt_eq` — what a comparison comes to;
* `detectArtifactType_inBounds_iff` — no byte past the end is read, exactly if the content
  does not end within the third signature, or is not compared with it.
-/
import MembraL3.ArtifactRegistry

namespace Membra

namespace ArtifactAnalyzer

variable {filename : String} {content : List UInt8}

/-- No read is out of bounds. -/
def InBounds (filename : String) (content : List UInt8) : Prop :=
  ∀ i, detectArtifactType filename content ≠ .error i

theorem inBounds_of_eq_ok {artifactType : String}
    (h : detectArtifactType filename content = .ok artifactType) : InBounds filename content := by
  intro i herror
  rw [h] at herror
  cases herror

/-- The extension is on one of the lists. -/
def KnownExtension (filename : String) : Prop :=
  (getFileExtension filename).map Char.toLower ∈ audioExtensions ++ videoExtensions

theorem matchesAt_of_lt {i : ℕ} (hi : i < content.length) (byte : UInt8) (signature : List UInt8) :
    matchesAt content i (byte :: signature) =
      if content[i] = byte then matchesAt content (i + 1) signature else .ok false := by
  rw [matchesAt, readByte, List.getElem?_eq_getElem hi]
  rfl

theorem matchesAt_length (byte : UInt8) (signature : List UInt8) :
    matchesAt content content.length (byte :: signature) = .error content.length := by
  rw [matchesAt, readByte, List.getElem?_eq_none le_rfl]
  rfl

/-- A comparison succeeds if the signature is there, runs past the end if all of it is
there up to the end, and fails otherwise. -/
theorem matchesAt_eq {i : ℕ} (hi : i ≤ content.length) (signature : List UInt8) :
    matchesAt content i signature =
      if signature <+: content.drop i then .ok true
      else if content.drop i <+: signature then .error content.length
      else .ok false := by
  -- the cursor moves through the content as the induction does through the signature
  induction signature generalizing i with
  | nil => rw [if_pos List.nil_prefix, matchesAt]
  | cons byte signature ih =>
    rcases hi.lt_or_eq with hlt | rfl
    · rw [matchesAt_of_lt hlt]
      simp only [List.drop_eq_getElem_cons hlt, List.cons_prefix_cons]
      by_cases hbyte : content[i] = byte
      · simp only [hbyte, true_and, if_true]
        exact ih hlt
      · rw [if_neg hbyte, if_neg fun h => hbyte h.1.symm, if_neg fun h => hbyte h.1]
    · have hnone : ¬ byte :: signature <+: [] :=
        fun h => List.cons_ne_nil _ _ (List.prefix_nil.mp h)
      simp only [List.drop_length, if_neg hnone, List.nil_prefix, if_true]
      exact matchesAt_length byte signature

/-- A signature that is no longer than the content is compared within it. -/
theorem matchesAt_zero {signature : List UInt8} (hlength : signature.length ≤ content.length) :
    matchesAt content 0 signature = .ok (decide (signature <+: content)) := by
  rw [matchesAt_eq (Nat.zero_le _)]
  simp only [List.drop_zero]
  by_cases hsignature : signature <+: content
  · rw [if_pos hsignature, decide_eq_true hsignature]
  · -- no content of that length is a part of the signature
    have hcontent : ¬ content <+: signature := by
      intro h
      rw [h.eq_of_length_le hlength] at hsignature
      exact hsignature List.prefix_rfl
    rw [if_neg hsignature, if_neg hcontent, decide_eq_false hsignature]

/-- What is detected of a content of four bytes or more with no known extension. -/
theorem detectArtifactType_eq (hext : ¬ KnownExtension filename) (hlength : 4 ≤ content.length) :
    detectArtifactType filename content =
      if bytesOf "ID3" <+: content ∨ bytesOf "RIFF" <+: content then .ok "audio"
      else if bytesOf "ftyp" <+: content.drop 4 then .ok "video"
      else if content.drop 4 <+: bytesOf "ftyp" then .error content.length
      else .ok "unknown" := by
  rw [KnownExtension, List.mem_append, not_or] at hext
  have hthree : (bytesOf "ID3").length ≤ content.length := le_trans (by decide) hlength
  have hfour : (bytesOf "RIFF").length ≤ content.length := le_trans (by decide) hlength
  rw [detectArtifactType, if_neg hext.1, if_neg hext.2, if_pos hlength, matchesAt_zero hthree,
    matchesAt_zero hfour]
  by_cases hid3 : bytesOf "ID3" <+: content
  · rw [if_pos (.inl hid3), decide_eq_true hid3]
    rfl
  by_cases hriff : bytesOf "RIFF" <+: content
  · rw [if_pos (.inr hriff), decide_eq_false hid3, decide_eq_true hriff]
    rfl
  rw [if_neg (not_or.mpr ⟨hid3, hriff⟩), decide_eq_false hid3, decide_eq_false hriff,
    matchesAt_eq hlength]
  split
  · rfl
  · split
    · rfl
    · rfl

/-- The content ends within the third signature, and the first two are not there. -/
def EndsInSignature (content : List UInt8) : Prop :=
  4 ≤ content.length ∧ content.length < 8 ∧ content.drop 4 <+: bytesOf "ftyp" ∧
    ¬ bytesOf "ID3" <+: content ∧ ¬ bytesOf "RIFF" <+: content

/-- Such a content is a proper part of the signature from its fifth byte on. -/
theorem endsInSignature_iff (hlength : 4 ≤ content.length) :
    EndsInSignature content ↔
      ¬ (bytesOf "ID3" <+: content ∨ bytesOf "RIFF" <+: content) ∧
        ¬ bytesOf "ftyp" <+: content.drop 4 ∧ content.drop 4 <+: bytesOf "ftyp" := by
  have hftyp : (bytesOf "ftyp").length = 4 := by decide
  have hrest : (content.drop 4).length = content.length - 4 := List.length_drop
  rw [EndsInSignature, not_or]
  constructor
  · rintro ⟨-, hshort, hpart, hstart⟩
    refine ⟨hstart, ?_, hpart⟩
    intro hwhole
    have hle := hwhole.length_le
    omega
  · rintro ⟨hstart, hmissing, hpart⟩
    refine ⟨hlength, ?_, hpart, hstart⟩
    -- four bytes that are a part of the signature are all of it
    by_contra hlong
    have heq := hpart.eq_of_length_le (by omega)
    rw [heq] at hmissing
    exact hmissing List.prefix_rfl

/-- All reads are in bounds exactly if the extension is known or the content does not end
within the third signature. -/
theorem detectArtifactType_inBounds_iff (filename : String) (content : List UInt8) :
    InBounds filename content ↔ KnownExtension filename ∨ ¬ EndsInSignature content := by
  by_cases hext : KnownExtension filename
  · refine iff_of_true ?_ (.inl hext)
    by_cases haudio : (getFileExtension filename).map Char.toLower ∈ audioExtensions
    · exact inBounds_of_eq_ok (if_pos haudio)
    · have hvideo := (List.mem_append.mp hext).resolve_left haudio
      exact inBounds_of_eq_ok ((if_neg haudio).trans (if_pos hvideo))
  rw [or_iff_right hext]
  by_cases hlength : 4 ≤ content.length
  · have hdetect := detectArtifactType_eq hext hlength
    rw [endsInSignature_iff hlength]
    split at hdetect
    · rename_i hstart
      exact iff_of_true (inBounds_of_eq_ok hdetect) fun h => h.1 hstart
    split at hdetect
    · rename_i hwhole
      exact iff_of_true (inBounds_of_eq_ok hdetect) fun h => h.2.1 hwhole
    split at hdetect
    · rename_i hstart hmissing hpart
      exact iff_of_false (fun h => h _ hdetect) fun h => h ⟨hstart, hmissing, hpart⟩
    · rename_i hpart
      exact iff_of_true (inBounds_of_eq_ok hdetect) fun h => hpart h.2.2
  · refine iff_of_true ?_ fun h => hlength h.1
    rw [KnownExtension, List.mem_append, not_or] at hext
    exact inBounds_of_eq_ok ((if_neg hext.1).trans ((if_neg hext.2).trans (if_neg hlength)))

theorem not_forall_inBounds :
    ¬ ∀ (filename : String) (content : List UInt8), InBounds filename content := by
  intro h
  have hread : detectArtifactType "clip" [0, 0, 0, 0] = .error 4 := by decide +kernel
  exact h "clip" [0, 0, 0, 0] 4 hread

end ArtifactAnalyzer

end Membra
