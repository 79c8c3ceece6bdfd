import AssentianPQE.Proofs.SeedLists

/-!
# `AssentianPQE.Proofs.SeedBinding`: what the commitment to the failed seeds binds

`commitmentsRoot` is the Merkle root of the commitments of a list of 10 to 20 entries. The tree
repeats the last node of an odd level, so lists of different lengths can have one root.

* `fslBlockHeight_eq_of_root_eq`: the root binds the height of the list.
* `seeds_bound_iff`: it binds the entries among the lists of one length, and only among them.
* `repeated_entry_same_root`: a list of eleven entries and one of twelve with one root.
-/

set_option autoImplicit false

namespace AssentianPQE

open Lib List FslEntry

/-- The string of which the commitment of an entry is the hash. -/
def FslEntry.preimage (heightBE : Bytes) (e : FslEntry) : Bytes :=
  e.xmss_root.data ++ (e.sk_seed.data ++ heightBE)

/-- The strings that are hashed for a list and its Merkle root. -/
def fslQueries (c : Crypto) (heightBE : Bytes) (entries : List FslEntry) : List Bytes :=
  entries.map (FslEntry.preimage heightBE) ++ merkleStrings c (entries.map FslEntry.commitment)

/-- An entry without its commitment. -/
def FslEntry.content (e : FslEntry) : Blob 96 × Uint256 :=
  (e.sk_seed, e.xmss_root)

theorem FslEntry.preimage_inj {b b' : Bytes} {e e' : FslEntry}
    (h : e.preimage b = e'.preimage b') : e.content = e'.content ∧ b = b' := by
  obtain ⟨hroot, hrest⟩ := append_inj h (by rw [Blob.length_data, Blob.length_data])
  obtain ⟨hseed, hheight⟩ := append_inj hrest (by rw [Blob.length_data, Blob.length_data])
  exact ⟨Prod.ext (Blob.ext hseed) (Blob.ext hroot), hheight⟩

/-- A list that was read: its commitments are the hashes of what was read. -/
structure ReadList (c : Crypto) (data : Bytes) (entries : List FslEntry) : Prop where
  height : ((data.drop 5).take 4).length = 4
  nonempty : entries ≠ []
  commitments : entries.map FslEntry.commitment =
    (entries.map (FslEntry.preimage ((data.drop 5).take 4))).map c.hash256

theorem readList_of_fslDeserialize {c : Crypto} {data : Bytes} {entries : List FslEntry}
    (h : fslDeserialize c data = some entries) : ReadList c data entries := by
  obtain ⟨hmin, hmax, height, -, rest, rfl⟩ := eq_fslSerialize_of_fslDeserialize h
  rw [fslDeserialize_fslSerialize c height hmin hmax rest] at h
  have hheight : ((fslSerialize height entries ++ rest).drop 5).take 4 = beBytes 4 height.toNat := by
    rw [drop_five_fslSerialize]
    exact take_left' (length_beBytes 4 _)
  refine ⟨?_, ?_, ?_⟩
  · rw [hheight]
    exact length_beBytes 4 _
  · rintro rfl
    exact absurd hmin (by decide)
  -- Reading the entries again gives the same entries.
  rw [hheight]
  nth_rewrite 1 [← Option.some.inj h]
  rw [map_map, map_map]
  rfl

section Binding

variable {c : Crypto} {data₁ data₂ : Bytes} {entries₁ entries₂ : List FslEntry} {root : Uint256}

/-- What is hashed for both lists. -/
def pairQueries (c : Crypto) (data₁ data₂ : Bytes) (entries₁ entries₂ : List FslEntry) :
    List Bytes :=
  fslQueries c ((data₁.drop 5).take 4) entries₁ ++ fslQueries c ((data₂.drop 5).take 4) entries₂

theorem fslMerkleRoot_of_verify (h : verifyAgainstHeader c entries₁ root = true) :
    fslMerkleRoot c entries₁ = root :=
  (of_decide_eq_true h).2

/-- The commitment of the first entry is the hash of a string of 132 bytes. -/
theorem ReadList.head (h : ReadList c data₁ entries₁) :
    ∃ e, entries₁.head? = some e ∧
      (entries₁.map commitment).head? =
        some (c.hash256 (e.preimage ((data₁.drop 5).take 4))) ∧
      64 < (e.preimage ((data₁.drop 5).take 4)).length ∧
      e.preimage ((data₁.drop 5).take 4) ∈ fslQueries c ((data₁.drop 5).take 4) entries₁ := by
  obtain ⟨e, rest, rfl⟩ := exists_cons_of_ne_nil h.nonempty
  refine ⟨e, rfl, ?_, ?_, ?_⟩
  · rw [h.commitments]
    rfl
  · simp only [preimage, length_append, Blob.length_data, h.height]
    decide
  · exact mem_append_left _ mem_cons_self

section
variable (h₁ : ReadList c data₁ entries₁) (h₂ : ReadList c data₂ entries₂)
  (hnone : NoCollision c (pairQueries c data₁ data₂ entries₁ entries₂))
  (hroot : fslMerkleRoot c entries₁ = fslMerkleRoot c entries₂)
include h₁ h₂ hnone hroot

/-- The root binds the height of a list, and its first entry. -/
theorem fslBlockHeight_eq_of_root_eq : fslBlockHeight data₁ = fslBlockHeight data₂ := by
  obtain ⟨e₁, -, hhead₁, hlong₁, hmem₁⟩ := h₁.head
  obtain ⟨e₂, -, hhead₂, hlong₂, hmem₂⟩ := h₂.head
  have hmem₁ := mem_append_left (fslQueries c ((data₂.drop 5).take 4) entries₂) hmem₁
  have hmem₂ := mem_append_right (fslQueries c ((data₁.drop 5).take 4) entries₁) hmem₂
  obtain ⟨hheads, -⟩ := eq_of_root_eq_of_long hnone hhead₁ hhead₂ hmem₁ hmem₂ hlong₁ hlong₂
    (fun s hs => mem_append_left _ (mem_append_right _ hs))
    (fun s hs => mem_append_right _ (mem_append_right _ hs)) hroot
  rw [hhead₁, hhead₂] at hheads
  have hsame := hnone _ hmem₁ _ hmem₂ (Option.some.inj hheads)
  rw [fslBlockHeight, fslBlockHeight, (preimage_inj hsame).2]

/-- Lists of one length with one root have the same entries. -/
theorem contents_eq_of_length_eq (hlen : entries₁.length = entries₂.length) :
    entries₁.map content = entries₂.map content := by
  have hcommitments : entries₁.map commitment = entries₂.map commitment := by
    refine getHash_eq_of_root_eq hnone (by rw [length_map, length_map, hlen]) ?_
      (fun s hs => mem_append_left _ (mem_append_right _ hs))
      (fun s hs => mem_append_right _ (mem_append_right _ hs)) hroot
    rw [Ne, map_eq_nil_iff]
    exact h₁.nonempty
  rw [h₁.commitments, h₂.commitments] at hcommitments
  -- The hash tells the strings apart, and a string has the entry in it.
  refine ext_getElem (by rw [length_map, length_map, hlen]) ?_
  intro i hi₁ hi₂
  rw [length_map] at hi₁ hi₂
  have hat := congrArg (fun l => l[i]?) hcommitments
  simp only [map_map, getElem?_map, getElem?_eq_getElem hi₁,
    getElem?_eq_getElem hi₂, Option.map_some, Option.some.injEq, Function.comp_apply] at hat
  have hsame := hnone _
    (mem_append_left _ (mem_append_left _ (mem_map_of_mem (getElem_mem hi₁))))
    _ (mem_append_right _ (mem_append_left _ (mem_map_of_mem
      (getElem_mem hi₂)))) hat
  rw [getElem_map, getElem_map]
  exact (preimage_inj hsame).1

end

/-- For all byte strings that `Deserialize` accepts and that verify against one root, if no two
strings that are hashed for them collide: the heights are the same, and the entries are the same if
and only if there are as many of them. -/
theorem seeds_bound_iff (h₁ : fslDeserialize c data₁ = some entries₁)
    (h₂ : fslDeserialize c data₂ = some entries₂) (hv₁ : verifyAgainstHeader c entries₁ root = true)
    (hv₂ : verifyAgainstHeader c entries₂ root = true)
    (hnone : NoCollision c (pairQueries c data₁ data₂ entries₁ entries₂)) :
    fslBlockHeight data₁ = fslBlockHeight data₂ ∧
      (entries₁.map FslEntry.content = entries₂.map FslEntry.content ↔
        entries₁.length = entries₂.length) := by
  have hread₁ := readList_of_fslDeserialize h₁
  have hread₂ := readList_of_fslDeserialize h₂
  have hroot : fslMerkleRoot c entries₁ = fslMerkleRoot c entries₂ := by
    rw [fslMerkleRoot_of_verify hv₁, fslMerkleRoot_of_verify hv₂]
  refine ⟨fslBlockHeight_eq_of_root_eq hread₁ hread₂ hnone hroot, ?_, ?_⟩
  · intro hcontents
    simpa using congrArg List.length hcontents
  · exact contents_eq_of_length_eq hread₁ hread₂ hnone hroot

end Binding

/-- Different hashes do not collide. -/
theorem noCollision_of_nodup {c : Crypto} {queries queries' : List Bytes}
    (hnodup : (queries.map c.hash256).Nodup) (hsub : ∀ s ∈ queries', s ∈ queries) :
    NoCollision c queries' := by
  intro x hx y hy he
  exact inj_on_of_nodup_map hnodup (hsub x hx) (hsub y hy) he

/-- The strings hashed for the list of ten entries are different. -/
theorem nodup_ownList :
    ((fslQueries seedCrypto (beBytes 4 1) ownList).map seedCrypto.hash256).Nodup := by
  decide +kernel

/-- The list as it is written, and with a byte after it. -/
theorem seeds_bound_iff_ownList :
    fslDeserialize seedCrypto (fslSerialize 1 ownList) = some ownList ∧
      fslDeserialize seedCrypto (fslSerialize 1 ownList ++ [0]) = some ownList ∧
      fslBlockHeight (fslSerialize 1 ownList) = fslBlockHeight (fslSerialize 1 ownList ++ [0]) ∧
      (ownList.map FslEntry.content = ownList.map FslEntry.content ↔
        ownList.length = ownList.length) := by
  have h₁ : fslDeserialize seedCrypto (fslSerialize 1 ownList) = some ownList := by
    decide +kernel
  have h₂ : fslDeserialize seedCrypto (fslSerialize 1 ownList ++ [0]) = some ownList := by
    decide +kernel
  have hverify : verifyAgainstHeader seedCrypto ownList (fslMerkleRoot seedCrypto ownList) = true := by
    decide +kernel
  have hheight₁ : ((fslSerialize 1 ownList).drop 5).take 4 = beBytes 4 1 := by
    decide +kernel
  have hheight₂ : ((fslSerialize 1 ownList ++ [0]).drop 5).take 4 = beBytes 4 1 := by
    decide +kernel
  refine ⟨h₁, h₂, seeds_bound_iff h₁ h₂ hverify hverify (noCollision_of_nodup nodup_ownList ?_)⟩
  intro s hs
  rw [pairQueries, hheight₁, hheight₂] at hs
  exact (mem_append.mp hs).elim id id

/-- A list of eleven trees, and the list with its last entry twice. -/
def elevenList : List FslEntry :=
  (List.range 11).map fun i => seedEntry 1 (UInt8.ofNat (200 + i))

@[inherit_doc elevenList]
def twelveList : List FslEntry :=
  elevenList ++ [seedEntry 1 210]

theorem nodup_elevenList :
    ((fslQueries seedCrypto (beBytes 4 1) elevenList).map seedCrypto.hash256).Nodup := by
  decide +kernel

/-- Both lists are read and verify against one root, no two strings that are hashed for them
collide, and the second one has one more entry. -/
theorem repeated_entry_same_root :
    fslDeserialize seedCrypto (fslSerialize 1 elevenList) = some elevenList ∧
      fslDeserialize seedCrypto (fslSerialize 1 twelveList) = some twelveList ∧
      verifyAgainstHeader seedCrypto elevenList (fslMerkleRoot seedCrypto elevenList) = true ∧
      verifyAgainstHeader seedCrypto twelveList (fslMerkleRoot seedCrypto elevenList) = true ∧
      NoCollision seedCrypto (pairQueries seedCrypto (fslSerialize 1 elevenList)
        (fslSerialize 1 twelveList) elevenList twelveList) ∧
      elevenList.map FslEntry.content ≠ twelveList.map FslEntry.content := by
  have hheight₁ : ((fslSerialize 1 elevenList).drop 5).take 4 = beBytes 4 1 := by
    decide +kernel
  have hheight₂ : ((fslSerialize 1 twelveList).drop 5).take 4 = beBytes 4 1 := by
    decide +kernel
  have hsub : ∀ s ∈ fslQueries seedCrypto (beBytes 4 1) twelveList,
      s ∈ fslQueries seedCrypto (beBytes 4 1) elevenList := by
    decide +kernel
  refine ⟨by decide +kernel, by decide +kernel, by decide +kernel, by decide +kernel,
    noCollision_of_nodup nodup_elevenList ?_, ?_⟩
  · intro s hs
    rw [pairQueries, hheight₁, hheight₂] at hs
    exact (mem_append.mp hs).elim id (hsub s)
  · intro hcontents
    have hlen := congrArg List.length hcontents
    rw [length_map, length_map] at hlen
    exact absurd hlen (by decide +kernel)

end AssentianPQE
