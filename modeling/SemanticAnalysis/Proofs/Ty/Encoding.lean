import Mathlib.Algebra.Group.Nat.Defs
import SemanticAnalysis.Proofs.Ty.Erasure
import SemanticAnalysis.Proofs.Ty.Parts
import SemanticAnalysis.Ty.Encoding

/-!
# Reading byte codes back

A byte code tells on its own where it ends, so in a string that starts with one the type, names and ids of
parameters apart, and the rest of the string can be told. `Splits` says so of two codes at a time. Layers
have it because their number comes first (`splits_encodeLayers`), a list because no entry opens with the
byte that closes it (`Splits.list`), and types by induction over their parts (`splits_encode`). There has to
be room for what is written: a byte for the number of layers, four bytes for that of a class (`FitsCode`).

**`encode_faithful`**: types with one code are the same, and no code is a proper start of another.
-/

namespace SemanticAnalysis

/-! ## Bytes -/

namespace Digest

theorem length_bytesOfNat (n x : Nat) : (bytesOfNat n x).length = n := by
  induction n generalizing x with
  | zero => rfl
  | succ n ih => rw [bytesOfNat, List.length_cons, ih]

theorem eq_of_bytesOfNat {n x y : Nat} (hx : x < 256 ^ n) (hy : y < 256 ^ n)
    (h : bytesOfNat n x = bytesOfNat n y) : x = y := by
  induction n generalizing x y with
  | zero => omega
  | succ n ih =>
    rw [Nat.pow_succ'] at hx hy
    obtain ⟨hfirst, hrest⟩ := List.cons.inj h
    have hlow : x % 256 = y % 256 := by simpa using congrArg UInt8.toNat hfirst
    have hhigh : x / 256 = y / 256 :=
      ih (Nat.div_lt_of_lt_mul hx) (Nat.div_lt_of_lt_mul hy) hrest
    omega

/-- Different strings with one digest under the seed of fingerprints. -/
def Collide (as bs : List UInt8) : Prop := as ≠ bs ∧ hash 0 as = hash 0 bs

end Digest

theorem Modifier.bits_lt (m : Modifier) : m.bits < 128 := by
  rcases m with ⟨a, b, c, d, e, f, g⟩
  revert a b c d e f g
  decide

theorem Modifier.eq_of_byte {m m' : Modifier} (h : m.bits.toUInt8 = m'.bits.toUInt8) : m = m' := by
  have hbits : m.bits % 256 = m'.bits % 256 := by simpa using congrArg UInt8.toNat h
  have hm := m.bits_lt
  have hm' := m'.bits_lt
  rw [← ofBits_bits m, ← ofBits_bits m', show m.bits = m'.bits by omega]

theorem Native.eq_of_byte {n n' : Native} (h : n.number.toUInt8 = n'.number.toUInt8) : n = n' := by
  cases n <;> cases n' <;> revert h <;> decide

namespace Ty

/-! ## Codes that tell where they end -/

section Splits

variable {α β : Type} {code : α → List UInt8} {view : α → β}

/-- If one string starts with the codes of both `a` and `b`, then the codes end at the same place, and
`view` does not tell `a` from `b`. -/
def Splits (code : α → List UInt8) (view : α → β) (a b : α) : Prop :=
  ∀ r r', code a ++ r = code b ++ r' → view a = view b ∧ r = r'

/-- A list splits if its entries do and none of them opens like its end. -/
theorem Splits.list (hopen : ∀ a, ∃ first rest, code a = first :: rest ∧ first ≠ listEnd)
    {as bs : List α} (h : ∀ a ∈ as, ∀ b ∈ bs, Splits code view a b) :
    Splits (fun as => as.flatMap code ++ [listEnd]) (List.map view) as bs := by
  induction as generalizing bs with
  | nil =>
    intro r r' heq
    cases bs with
    | nil => exact ⟨rfl, by simpa using heq⟩
    | cons b bs =>
      obtain ⟨first, rest, hb, hne⟩ := hopen b
      simp [hb, hne.symm] at heq
  | cons a as ih =>
    intro r r' heq
    cases bs with
    | nil =>
      obtain ⟨first, rest, ha, hne⟩ := hopen a
      simp [ha, hne] at heq
    | cons b bs =>
      simp only [List.flatMap_cons, List.append_assoc] at heq
      obtain ⟨hhead, htail⟩ := h a List.mem_cons_self b List.mem_cons_self _ _ heq
      have hrest := fun a ha b hb => h a (List.mem_cons_of_mem _ ha) b (List.mem_cons_of_mem _ hb)
      obtain ⟨hmap, hr⟩ := ih hrest r r' (by simpa only [List.append_assoc] using htail)
      exact ⟨by rw [List.map_cons, List.map_cons, hhead, hmap], hr⟩

end Splits

/-! ## The parts of a code -/

mutual

/-- The byte code leaves out what `erase` blanks. -/
theorem encode_erase : ∀ t : Ty, t.erase.encode = t.encode
  | ⟨k, layers⟩ => by rw [erase, encode, encode, encodeKind_erase k]

theorem encodeKind_erase : ∀ k : Kind Ty, encodeKind (eraseKind k) = encodeKind k
  | .any => rfl
  | .native _ => rfl
  | .cls _ => rfl
  | .function s => by rw [eraseKind, encodeKind, encodeKind, encodeSignature_erase s]
  | .union ts => by rw [eraseKind, encodeKind, encodeKind, encodeList_erase ts]
  | .optional t => by rw [eraseKind, encodeKind, encodeKind, encode_erase t]

theorem encodeSignature_erase : ∀ s : Signature Ty,
    encodeSignature (eraseSignature s) = encodeSignature s
  | ⟨ps, r⟩ => by
    rw [eraseSignature, encodeSignature, encodeSignature, encode_erase r, encodeParams_erase ps]

theorem encodeList_erase : ∀ ts : List Ty, encodeList (eraseList ts) = encodeList ts
  | [] => rfl
  | t :: ts => by rw [eraseList, encodeList, encodeList, encode_erase t, encodeList_erase ts]

theorem encodeParams_erase : ∀ ps : List (Parameter Ty),
    encodeParams (eraseParams ps) = encodeParams ps
  | [] => rfl
  | p :: ps => by
    rw [eraseParams, encodeParams, encodeParams, encodeParam_erase p, encodeParams_erase ps]

theorem encodeParam_erase : ∀ p : Parameter Ty, encodeParam (eraseParam p) = encodeParam p
  | ⟨_, t, _, _⟩ => by rw [eraseParam, encodeParam, encodeParam, encode_erase t]

end

theorem encodeList_eq_flatMap (ts : List Ty) : encodeList ts = ts.flatMap encode := by
  induction ts with
  | nil => rfl
  | cons t ts ih => rw [encodeList, ih, List.flatMap_cons]

theorem encodeParams_eq_flatMap (ps : List (Parameter Ty)) :
    encodeParams ps = ps.flatMap encodeParam := by
  induction ps with
  | nil => rfl
  | cons p ps ih => rw [encodeParams, ih, List.flatMap_cons]

theorem eraseParams_eq_map (ps : List (Parameter Ty)) : eraseParams ps = ps.map eraseParam := by
  induction ps with
  | nil => rfl
  | cons p ps ih => rw [eraseParams, ih, List.map_cons]

theorem encode_opens (t : Ty) : ∃ first rest, t.encode = first :: rest ∧ first ≠ listEnd := by
  obtain ⟨kind, layers⟩ := t
  cases kind <;> exact ⟨_, _, rfl, by decide⟩

theorem encodeParam_opens (p : Parameter Ty) :
    ∃ first rest, encodeParam p = first :: rest ∧ first ≠ listEnd := by
  obtain ⟨name, ty, variadic, id⟩ := p
  cases variadic <;> exact ⟨_, _, rfl, by decide⟩

theorem splits_encodeLayers {layers layers' : List Modifier} (h : layers.length ≤ 255)
    (h' : layers'.length ≤ 255) : Splits encodeLayers id layers layers' := by
  intro r r' heq
  obtain ⟨hcount, hrest⟩ := List.cons.inj heq
  have hlength : layers.length % 256 = layers'.length % 256 := by
    simpa using congrArg UInt8.toNat hcount
  obtain ⟨hbytes, hr⟩ := List.append_inj hrest (by simp only [List.length_map]; omega)
  exact ⟨(List.map_inj_right fun _ _ => Modifier.eq_of_byte).1 hbytes, hr⟩

theorem splits_encodeParam {p p' : Parameter Ty} (h : Splits encode erase p.ty p'.ty) :
    Splits encodeParam eraseParam p p' := by
  intro r r' heq
  obtain ⟨name, ty, variadic, id⟩ := p
  obtain ⟨name', ty', variadic', id'⟩ := p'
  obtain ⟨hmark, hrest⟩ := List.cons.inj heq
  obtain ⟨hty, hr⟩ := h r r' hrest
  have hvariadic : variadic = variadic' := by
    cases variadic <;> cases variadic' <;> revert hmark <;> decide
  have hty : ty.erase = ty'.erase := hty
  exact ⟨by rw [eraseParam, eraseParam, hty, hvariadic], hr⟩

theorem splits_encodeSignature {s s' : Signature Ty} (hresult : Splits encode erase s.result s'.result)
    (hparams : ∀ p ∈ s.params, ∀ p' ∈ s'.params, Splits encode erase p.ty p'.ty) :
    Splits encodeSignature eraseSignature s s' := by
  intro r r' heq
  obtain ⟨params, result⟩ := s
  obtain ⟨params', result'⟩ := s'
  simp only [encodeSignature, encodeParams_eq_flatMap, List.append_assoc] at heq
  obtain ⟨hres, hrest⟩ := hresult _ _ heq
  have hlist := Splits.list encodeParam_opens fun p hp p' hp' => splits_encodeParam (hparams p hp p' hp')
  obtain ⟨hps, hr⟩ := hlist r r' (by simpa only [List.append_assoc] using hrest)
  have hres : result.erase = result'.erase := hres
  exact ⟨by rw [eraseSignature, eraseSignature, eraseParams_eq_map, eraseParams_eq_map, hps, hres], hr⟩

/-- A kind splits if its parts do. -/
theorem splits_encodeKind {k k' : Kind Ty} (hk : ∀ c, k = .cls c → c.index < 2 ^ 32)
    (hk' : ∀ c, k' = .cls c → c.index < 2 ^ 32)
    (h : ∀ u ∈ k.parts, ∀ v ∈ k'.parts, Splits encode erase u v) :
    Splits encodeKind eraseKind k k' := by
  intro r r' heq
  -- kinds with different tags have no start in common
  cases k with
  | any =>
    cases k' with
    | any => exact ⟨rfl, by simpa [encodeKind] using heq⟩
    | _ => simp [encodeKind] at heq
  | native n =>
    cases k' with
    | native n' =>
      simp only [encodeKind, List.cons_append, List.cons.injEq, List.nil_append, true_and] at heq
      exact ⟨by rw [Native.eq_of_byte heq.1], heq.2⟩
    | _ => simp [encodeKind] at heq
  | cls c =>
    cases k' with
    | cls c' =>
      obtain ⟨hbytes, hr⟩ := List.append_inj (List.cons.inj heq).2
        (by rw [Digest.length_bytesOfNat, Digest.length_bytesOfNat])
      have hindex : c.index = c'.index := Digest.eq_of_bytesOfNat (hk c rfl) (hk' c' rfl) hbytes
      cases c
      cases c'
      cases hindex
      exact ⟨rfl, hr⟩
    | _ => simp [encodeKind] at heq
  | function s =>
    cases k' with
    | function s' =>
      have hsig : Splits encodeSignature eraseSignature s s' := by
        refine splits_encodeSignature (h _ List.mem_cons_self _ List.mem_cons_self) fun p hp p' hp' => ?_
        exact h _ (List.mem_cons_of_mem _ (List.mem_map_of_mem hp)) _
          (List.mem_cons_of_mem _ (List.mem_map_of_mem hp'))
      obtain ⟨hs, hr⟩ := hsig r r' (List.cons.inj heq).2
      exact ⟨by rw [eraseKind, eraseKind, hs], hr⟩
    | _ => simp [encodeKind] at heq
  | union ts =>
    cases k' with
    | union ts' =>
      have hlist : ∀ t ∈ ts, ∀ t' ∈ ts', Splits encode erase t t' := h
      obtain ⟨hmembers, hr⟩ := Splits.list encode_opens hlist r r'
        (by simpa [encodeKind, encodeList_eq_flatMap] using heq)
      exact ⟨by rw [eraseKind, eraseKind, eraseList_eq_map, eraseList_eq_map, hmembers], hr⟩
    | _ => simp [encodeKind] at heq
  | optional t =>
    cases k' with
    | optional t' =>
      obtain ⟨ht, hr⟩ := h t List.mem_cons_self t' List.mem_cons_self r r' (List.cons.inj heq).2
      exact ⟨by rw [eraseKind, eraseKind, ht], hr⟩
    | _ => simp [encodeKind] at heq

/-! ## Types -/

/-- There is room for a type in its byte code, at any depth: a byte for the number of layers and, since
numbers of items are 32 bits wide, four bytes for that of a class. -/
def FitsCode (t : Ty) : Prop :=
  ∀ u : Ty, u.Within t → u.layers.length ≤ 255 ∧ ∀ c, u.kind = .cls c → c.index < 2 ^ 32

theorem fitsCode_mk {kind : Kind Ty} {layers : List Modifier} : (⟨kind, layers⟩ : Ty).FitsCode ↔
    (layers.length ≤ 255 ∧ ∀ c, kind = .cls c → c.index < 2 ^ 32) ∧ ∀ u ∈ kind.parts, u.FitsCode := by
  unfold FitsCode
  exact forall_within_iff

theorem splits_encode {s t : Ty} (hs : s.FitsCode) (ht : t.FitsCode) : Splits encode erase s t := by
  induction s using Ty.induction generalizing t with
  | step s ih =>
    obtain ⟨kind, layers⟩ := s
    obtain ⟨kind', layers'⟩ := t
    obtain ⟨⟨hlayers, hcls⟩, hparts⟩ := fitsCode_mk.1 hs
    obtain ⟨⟨hlayers', hcls'⟩, hparts'⟩ := fitsCode_mk.1 ht
    have hsplits : Splits encodeKind eraseKind kind kind' :=
      splits_encodeKind hcls hcls' fun u hu v hv => ih u hu (hparts u hu) (hparts' v hv)
    intro r r' heq
    rw [encode, encode, List.append_assoc, List.append_assoc] at heq
    obtain ⟨hkind, hrest⟩ := hsplits _ _ heq
    obtain ⟨hl, hr⟩ := splits_encodeLayers hlayers hlayers' _ _ hrest
    have hl : layers = layers' := hl
    exact ⟨by rw [erase, erase, hkind, hl], hr⟩

theorem eq_of_prefix {s t : Ty} (hs : s.FitsCode) (ht : t.FitsCode) (h : s.encode <+: t.encode) :
    s.encode = t.encode := by
  obtain ⟨rest, hrest⟩ := h
  have hend : rest = [] := (splits_encode hs ht rest [] (by rw [hrest, List.append_nil])).2
  rw [← hrest, hend, List.append_nil]

/-- **The byte code of types is faithful and prefix-free.** As long as there is room for what is written,
two types have one code exactly if they are the same up to names and ids of parameters, and no code is a
proper start of another. So only a collision of digests gives different types one fingerprint. -/
theorem encode_faithful {s t : Ty} (hs : s.FitsCode) (ht : t.FitsCode) :
    (s.encode = t.encode ↔ (s == t) = true) ∧
      (s.encode <+: t.encode → s.encode = t.encode) ∧
      (t.encode <+: s.encode → t.encode = s.encode) ∧
      ((s == t) = false → s.fingerprint = t.fingerprint → Digest.Collide s.encode t.encode) := by
  have hsame : s.encode = t.encode ↔ (s == t) = true := by
    rw [beq_iff]
    constructor
    · intro h
      exact (splits_encode hs ht [] [] (by rw [h])).1
    · intro h
      rw [← encode_erase s, h, encode_erase]
  refine ⟨hsame, eq_of_prefix hs ht, eq_of_prefix ht hs, fun hne hdigest => ⟨fun h => ?_, hdigest⟩⟩
  rw [hsame.1 h] at hne
  cases hne

/-- A number of layers beyond a byte is cut off, and then a code may go on like another one. -/
example : (native .int).encode <+: (⟨.native .int, .replicate 256 { pointer := true }⟩ : Ty).encode := by
  decide +kernel

/-- A function of a `const int*` and any number of optionals of a class. -/
def loggerType (first rest : String) : Ty where
  kind := .function
    { params :=
        [{ name := first, ty := ⟨.native .int, [{ constant := true }, { pointer := true }]⟩ },
          { name := rest, ty := ⟨.optional ⟨.cls ⟨7⟩, []⟩, []⟩, variadic := true, id := 1 }]
      result := ⟨.union [⟨.native .int, []⟩, ⟨.native .bool, []⟩], []⟩ }
  layers := []

theorem fitsCode_loggerType (first rest : String) : (loggerType first rest).FitsCode := by
  simp [fitsCode_mk, loggerType, Kind.parts]

/-- Names of parameters leave no trace, and the code of a type is no start of that of a pointer to it. -/
theorem encode_faithful_loggerType :
    (loggerType "format" "values").FitsCode ∧ (loggerType "f" "vs").FitsCode ∧
      (loggerType "format" "values").encode = (loggerType "f" "vs").encode ∧
      ¬ (loggerType "format" "values").encode <+: (loggerType "f" "vs").point.encode := by
  have hfirst := fitsCode_loggerType "format" "values"
  have hsecond := fitsCode_loggerType "f" "vs"
  have hpointer : (loggerType "f" "vs").point.FitsCode := by
    simp [fitsCode_mk, loggerType, Kind.parts, point, withLayer, Modifier.isEmpty, Modifier.empty]
  refine ⟨hfirst, hsecond, (encode_faithful hfirst hsecond).1.2 (by decide +kernel), fun hprefix => ?_⟩
  obtain ⟨hsame, hwhole, -⟩ := encode_faithful hfirst hpointer
  exact absurd (hsame.1 (hwhole hprefix)) (by decide +kernel)

end Ty

end SemanticAnalysis
