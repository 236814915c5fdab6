import SemanticAnalysis.Generics.Instances
import SemanticAnalysis.Proofs.Ty.Encoding

/-!
# Instances as a finite map

A table of instances is a map from templates and argument lists, where argument lists that are the
same count as one key. Digests only choose the bucket: since types that are the same have one byte
code, same argument lists have one digest (`Hashing.key_congr`), and different ones are told apart
inside the bucket whatever their digests are. So an instance that is added is found under the argument
lists that are the same as its own and under no other (`InstanceTable.find?_insert_of_same`,
`InstanceTable.find?_insert_of_ne`).
-/

namespace SemanticAnalysis

namespace Ty

/-- Lists of types are the same when their members are, one by one. -/
theorem beq_list_iff (as bs : List Ty) : (as == bs) = true ↔ as.map erase = bs.map erase := by
  induction as generalizing bs with
  | nil => cases bs <;> simp
  | cons a as ih =>
    cases bs with
    | nil => simp
    | cons b bs =>
      rw [List.cons_beq_cons, Bool.and_eq_true, ih, beq_iff]
      simp

end Ty

/-- Functions that may stand for the digests: of the byte code of a type, and of bytes under a seed. -/
structure Hashing where
  fingerprint : List UInt8 → UInt64
  digest : UInt64 → List UInt8 → UInt64

namespace Hashing

/-- The key of an argument list. -/
def key (h : Hashing) (arguments : List Ty) : UInt64 :=
  h.digest arguments.length.toUInt64
    (arguments.flatMap fun t => Digest.bytesOfWord (h.fingerprint t.encode))

/-- The digests in use. -/
def xxHash : Hashing := ⟨Digest.hash 0, Digest.hash⟩

theorem key_map_erase (h : Hashing) (arguments : List Ty) :
    h.key (arguments.map Ty.erase) = h.key arguments := by
  unfold key
  rw [List.length_map, List.flatMap_map]
  simp only [Ty.encode_erase]

theorem key_congr (h : Hashing) {as bs : List Ty} (hsame : as.map Ty.erase = bs.map Ty.erase) :
    h.key as = h.key bs := by
  rw [← key_map_erase h as, hsame, key_map_erase]

end Hashing

theorem Instances.argumentsKey_congr {as bs : List Ty} (h : as.map Ty.erase = bs.map Ty.erase) :
    argumentsKey as = argumentsKey bs := Hashing.xxHash.key_congr h

/-! ## One table -/

namespace InstanceTable

/-- Pushing onto one bucket leaves the others as they are. -/
theorem lookup_push (key other : ItemId × UInt64) (inst : Instance)
    (buckets : List ((ItemId × UInt64) × List Instance)) :
    (push key inst buckets).lookup other =
      if other = key then some ((buckets.lookup key).getD [] ++ [inst])
      else buckets.lookup other := by
  induction buckets with
  | nil =>
    unfold push
    by_cases h : other = key
    · simp [h]
    · simp [List.lookup_cons, h, beq_eq_false_iff_ne.2 h]
  | cons b rest ih =>
    obtain ⟨k, held⟩ := b
    unfold push
    by_cases hk : k = key
    · subst hk
      rw [if_pos (beq_self_eq_true k)]
      by_cases h : other = k
      · simp [h]
      · simp [List.lookup_cons, h, beq_eq_false_iff_ne.2 h]
    · rw [if_neg (by simpa using hk), List.lookup_cons, List.lookup_cons]
      have hkey : (key == k) = false := beq_eq_false_iff_ne.2 (Ne.symm hk)
      by_cases h : other = k
      · subst h
        simp [hk]
      · simp only [beq_eq_false_iff_ne.2 h, ih, List.lookup_cons, hkey]

variable {digest : List Ty → UInt64} {t : InstanceTable} {template : ItemId}

theorem bucket_push (key : ItemId) (inst : Instance) (size : Nat) (arguments : List Ty) :
    (⟨push (key, digest inst.arguments) inst t.buckets, size⟩ : InstanceTable).bucket digest template
        arguments =
      if template = key ∧ digest arguments = digest inst.arguments then
        t.bucket digest key inst.arguments ++ [inst]
      else t.bucket digest template arguments := by
  unfold bucket
  rw [lookup_push]
  simp only [Prod.mk.injEq]
  split <;> rfl

section Same

variable (hdigest : ∀ as bs : List Ty, as.map Ty.erase = bs.map Ty.erase → digest as = digest bs)

include hdigest

/-- Same argument lists have one instance. -/
theorem find?_congr {as bs : List Ty} (h : as.map Ty.erase = bs.map Ty.erase) :
    t.find? digest template as = t.find? digest template bs := by
  unfold find? bucket
  rw [hdigest as bs h]
  congr 1
  funext inst
  rw [Bool.eq_iff_iff, Ty.beq_list_iff, Ty.beq_list_iff, h]

section Insert

variable {key : ItemId} {inst : Instance} (hnew : t.find? digest key inst.arguments = none)
variable {arguments : List Ty}

include hnew

omit hdigest in
theorem insert_eq_push :
    t.insert digest key inst =
      (true, ⟨push (key, digest inst.arguments) inst t.buckets, t.size + 1⟩) := by
  unfold insert
  rw [hnew]
  rfl

/-- A new instance is found under the argument lists that are the same as its own. -/
theorem find?_insert_of_same (h : arguments.map Ty.erase = inst.arguments.map Ty.erase) :
    (t.insert digest key inst).2.find? digest key arguments = some inst := by
  have hself : (inst.arguments == inst.arguments) = true := (Ty.beq_list_iff _ _).2 rfl
  rw [find?_congr hdigest h, insert_eq_push hnew, find?, bucket_push, if_pos ⟨rfl, rfl⟩,
    List.find?_append]
  -- nothing in the bucket has the arguments, so the search comes to its new end
  rw [find?] at hnew
  rw [hnew, Option.none_or, List.find?_cons, hself]

omit hdigest in
/-- It is found under no other key, even where the digests agree. -/
theorem find?_insert_of_ne
    (h : ¬ (template = key ∧ arguments.map Ty.erase = inst.arguments.map Ty.erase)) :
    (t.insert digest key inst).2.find? digest template arguments =
      t.find? digest template arguments := by
  rw [insert_eq_push hnew, find?, bucket_push]
  by_cases hbucket : template = key ∧ digest arguments = digest inst.arguments
  · obtain ⟨rfl, hkey⟩ := hbucket
    have hother : (inst.arguments == arguments) = false := by
      rw [← Bool.not_eq_true, Ty.beq_list_iff]
      exact fun hsame => h ⟨rfl, hsame.symm⟩
    rw [if_pos ⟨rfl, hkey⟩, List.find?_append, List.find?_cons, hother, List.find?_nil,
      Option.or_none, find?, bucket, bucket, hkey]
  · rw [if_neg hbucket, find?]

end Insert

end Same

end InstanceTable

end SemanticAnalysis
