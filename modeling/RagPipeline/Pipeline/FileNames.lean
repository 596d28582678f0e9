import RagPipeline.Center.Admission
import RagPipeline.Rag.Parsers
import Mathlib.Data.List.TakeWhile

/-!
# Which file names get through

The center looks at the extension of a file name before it takes an upload, the ingest service
chooses its parser by it. Their libraries tell extensions apart only where nothing but dots stands
before the last dot: Go finds an extension there, Python a file without one.

## Main definitions

* `Dotfile`: such a name.
* `IsGoLower`: what is known of `unicode.ToLower`.

## Main results

* `splitext_ofString`: where the two extensions agree.
* `admitted_iff`: an admitted name has a parser or is a dotfile.
-/
namespace Pipeline

open Events Wire Rag Center

/-- The last component of a path. -/
def component (name : String) : List Char := (name.toList.reverse.takeWhile (· ≠ '/')).reverse

/-- One or more dots, and then no other dot. -/
def Dotfile (name : String) : Prop :=
  ∃ n word, component name = List.replicate (n + 1) '.' ++ word ∧ '.' ∉ word

/-- What is left of the last component without its leading dots. -/
def stem (name : String) : List Char := (component name).dropWhile (· = '.')

/-! ### Extensions -/

section Extensions

variable {name : String} {n : Nat} {word : List Char}

theorem component_eq (name : String) :
    ∃ n, component name = List.replicate n '.' ++ stem name := by
  refine ⟨((component name).takeWhile (· = '.')).length, ?_⟩
  have hdots : (component name).takeWhile (· = '.') =
      List.replicate ((component name).takeWhile (· = '.')).length '.' := by
    rw [List.eq_replicate_iff]
    exact ⟨rfl, fun c hc => by simpa using List.mem_takeWhile_imp hc⟩
  rw [← hdots, stem, List.takeWhile_append_dropWhile]

theorem ofChar_val_eq {c d : Char} : (CodePoint.ofChar c).val = d.toNat ↔ c = d := by
  simp [CodePoint.ofChar, Char.toNat_inj]

theorem splitext_eq (name : String) : splitext (ofString name) =
    if '.' ∈ stem name then
      ofString (String.ofList ('.' :: ((stem name).reverse.takeWhile (· ≠ '.')).reverse))
    else [] := by
  have hslash (c : Char) : (CodePoint.ofChar c).val = 0x2F ↔ c = '/' := @ofChar_val_eq c '/'
  have hdot (c : Char) : (CodePoint.ofChar c).val = 0x2E ↔ c = '.' := @ofChar_val_eq c '.'
  simp only [splitext, ofString, ← List.map_reverse, List.takeWhile_map, List.dropWhile_map,
    List.any_map, Function.comp_def, ne_eq, hslash, hdot]
  change (if (stem name).any (decide <| · = '.') then _ else []) = _
  refine if_congr (by simp) ?_ rfl
  rw [String.toList_ofList]
  rfl

theorem ext_eq (name : String) : ext name =
    if '.' ∈ component name then
      String.ofList ('.' :: ((component name).reverse.takeWhile (· ≠ '.')).reverse)
    else "" := by
  simp [ext, component]

theorem Dotfile.not_mem_stem (h : Dotfile name) : '.' ∉ stem name := by
  obtain ⟨n, word, hc, hw⟩ := h
  intro hmem
  rw [stem, hc, List.dropWhile_append_of_pos (by simp)] at hmem
  exact hw ((List.dropWhile_sublist _).subset hmem)

theorem splitext_dotfile (h : Dotfile name) : splitext (ofString name) = [] := by
  rw [splitext_eq, if_neg h.not_mem_stem]

/-- Apart from dotfiles the extensions are the same. -/
theorem splitext_ofString (h : ¬ Dotfile name) :
    splitext (ofString name) = ofString (ext name) := by
  obtain ⟨n, hn⟩ := component_eq name
  by_cases hmem : '.' ∈ stem name
  · have hcomp : '.' ∈ component name := by
      rw [hn]
      exact List.mem_append_right _ hmem
    have hlen : ((stem name).reverse.takeWhile (· ≠ '.')).length ≠ (stem name).reverse.length := by
      intro hlen
      have hall := List.takeWhile_eq_self_iff.1 ((List.takeWhile_prefix _).eq_of_length hlen)
      simpa using hall '.' (List.mem_reverse.2 hmem)
    rw [splitext_eq, ext_eq, if_pos hmem, if_pos hcomp, hn, List.reverse_append,
      List.takeWhile_append, if_neg hlen]
  · have hcomp : '.' ∉ component name := by
      intro hc
      cases n with
      | zero => exact hmem (by simpa [hn] using hc)
      | succ n => exact h ⟨n, stem name, hn, hmem⟩
    rw [splitext_eq, ext_eq, if_neg hmem, if_neg hcomp]
    rfl

end Extensions

/-! ### Letter case -/

/-- What Unicode says about `unicode.ToLower`: outside of ASCII only two letters become ASCII. -/
structure IsGoLower (lower : Char → Char) : Prop where
  ascii : ∀ c, c.toNat < 0x80 → lower c = c.toLower
  kelvin : lower '\u212A' = 'k'
  dotted : lower '\u0130' = 'i'
  other : ∀ c, 0x80 ≤ c.toNat → c ≠ '\u212A' → c ≠ '\u0130' → 0x80 ≤ (lower c).toNat

/-- The configured extensions are the supported ones in some letter case. -/
def SameExtensions (h : Handlers) : Prop :=
  ∀ x, x ∈ h.allowedExtensions.map String.toLower ↔ x ∈ supported

section Case

variable {lower : Char → Char} {c d : Char} {s x : String}

theorem toNat_toLower (c : Char) : c.toLower.toNat =
    if 0x41 ≤ c.toNat ∧ c.toNat ≤ 0x5A then c.toNat + 32 else c.toNat := by
  have hiff : (c.val ≥ 'A'.val ∧ c.val ≤ 'Z'.val) ↔ 0x41 ≤ c.toNat ∧ c.toNat ≤ 0x5A := Iff.rfl
  unfold Char.toLower
  split
  · rename_i h
    rw [if_pos (hiff.1 h)]
    change (c.val + ('a'.val - 'A'.val)).toNat = c.val.toNat + 32
    have hle : c.val.toNat ≤ 0x5A := h.2
    rw [UInt32.toNat_add]
    change (c.val.toNat + 32) % 2 ^ 32 = c.val.toNat + 32
    omega
  · rename_i h
    rw [if_neg (mt hiff.2 h)]

theorem toLower_of_le (hc : 0x80 ≤ c.toNat) : c.toLower = c := by
  rw [← Char.toNat_inj, toNat_toLower, if_neg (by omega)]

theorem IsGoLower.eq_iff (h : IsGoLower lower) (hd : d.toNat < 0x80) (hk : d ≠ 'k')
    (hi : d ≠ 'i') : lower c = d ↔ c.toLower = d := by
  by_cases hc : c.toNat < 0x80
  · rw [h.ascii c hc]
  rw [not_lt] at hc
  rw [toLower_of_le hc]
  refine iff_of_false (fun he => ?_) (fun he => ?_)
  · by_cases h₁ : c = '\u212A'
    · exact hk (he.symm.trans (h₁ ▸ h.kelvin))
    by_cases h₂ : c = '\u0130'
    · exact hi (he.symm.trans (h₂ ▸ h.dotted))
    have := h.other c hc h₁ h₂
    rw [he] at this
    omega
  · rw [he] at hc
    omega

theorem toList_toLower (s : String) : s.toLower.toList = s.toList.map Char.toLower :=
  String.toList_map

theorem lower_ofString (s : String) : Rag.lower (ofString s) = ofString s.toLower := by
  simp only [Rag.lower, ofString, toList_toLower, List.map_map]
  refine List.map_congr_left fun c _ => Fin.ext ?_
  by_cases hr : 0x41 ≤ (CodePoint.ofChar c).val ∧ (CodePoint.ofChar c).val ≤ 0x5A
  · rw [Function.comp_apply, dif_pos hr]
    exact ((toNat_toLower c).trans (if_pos hr)).symm
  · rw [Function.comp_apply, dif_neg hr]
    exact ((toNat_toLower c).trans (if_neg hr)).symm

theorem IsGoLower.map_eq_iff (h : IsGoLower lower) {cs ds : List Char}
    (hd : ∀ d ∈ ds, d.toNat < 0x80 ∧ d ≠ 'k' ∧ d ≠ 'i') :
    cs.map lower = ds ↔ cs.map Char.toLower = ds := by
  induction cs generalizing ds with
  | nil => rfl
  | cons c cs ih =>
    cases ds with
    | nil => simp
    | cons d ds =>
      obtain ⟨⟨hlt, hk, hi⟩, hds⟩ := List.forall_mem_cons.1 hd
      rw [List.map_cons, List.map_cons, List.cons.injEq, List.cons.injEq, h.eq_iff hlt hk hi,
        ih hds]

/-- Lower case to an extension is the lower case of ASCII in Go as well. -/
theorem toLower_eq_iff {h : Handlers} (hl : IsGoLower h.lower) (hx : x ∈ supported) :
    h.toLower s = x ↔ s.toLower = x := by
  have hplain : ∀ x ∈ supported, ∀ d ∈ x.toList, d.toNat < 0x80 ∧ d ≠ 'k' ∧ d ≠ 'i' := by
    simp [supported, parsers]
  rw [← String.toList_inj, ← String.toList_inj, Handlers.toLower, String.toList_ofList,
    toList_toLower]
  exact hl.map_eq_iff (hplain x hx)

end Case

/-! ### Admission -/

section Admission

variable {h : Handlers} {tables : LowerTables} {repr : PyStr → PyStr} {name : String}

theorem extensionAllowed_iff (hl : IsGoLower h.lower) (hext : SameExtensions h) {s : String} :
    h.extensionAllowed (h.toLower s) = true ↔ s.toLower ∈ supported := by
  simp only [Handlers.extensionAllowed, decide_eq_true_eq, List.mem_map]
  constructor
  · rintro ⟨a, ha, he⟩
    have hsup : a.toLower ∈ supported := (hext _).1 (List.mem_map_of_mem ha)
    have hgo : h.toLower a = a.toLower := (toLower_eq_iff hl hsup).2 rfl
    rwa [(toLower_eq_iff hl hsup).1 (he.symm.trans hgo)]
  · intro hsup
    obtain ⟨a, ha, he⟩ := List.mem_map.1 ((hext _).2 hsup)
    refine ⟨a, ha, ?_⟩
    rw [(toLower_eq_iff hl hsup).2 he, (toLower_eq_iff hl hsup).2 rfl]

/-- The center admits a name by its extension alone. -/
theorem createUpload_iff (hl : IsGoLower h.lower) (hext : SameExtensions h) :
    h.createUpload (some ⟨name⟩) = .ok name ↔ (ext name).toLower ∈ supported := by
  rw [h.createUpload_ok, extensionAllowed_iff hl hext]
  refine ⟨fun hc => hc.2.2, fun hsup => ⟨rfl, ?_, hsup⟩⟩
  rintro rfl
  have hempty : ext "" = "" := by decide
  simp [hempty, supported, parsers, ← String.toList_inj, toList_toLower] at hsup

/-- The ingest service goes by the extension as well, where there is one for Python. -/
theorem parserFor_iff (ht : tables.IsUnicode) (hd : ¬ Dotfile name) :
    (∃ p, tables.parserFor repr (ofString name) = .ok p) ↔ (ext name).toLower ∈ supported := by
  rw [ht.parserFor_ok, splitext_ofString hd, lower_ofString]
  simp only [ofString_injective.eq_iff, exists_eq_right']

theorem parserFor_dotfile (hd : Dotfile name) :
    tables.parserFor repr (ofString name) = .error (.permanent .unsupportedType (some
      (ofString "unsupported extension " ++ repr []))) := by
  have hext : tables.extension (ofString name) = [] := by
    rw [LowerTables.extension, splitext_dotfile hd]
    rfl
  simp [LowerTables.parserFor, hext, parsers]

/-- A name is admitted if there is a parser for it or if it is a dotfile with such an extension;
of a dotfile the ingest service says that its type is not supported. -/
theorem admitted_iff (hl : IsGoLower h.lower) (ht : tables.IsUnicode) (hext : SameExtensions h) :
    (h.createUpload (some ⟨name⟩) = .ok name ↔
      (∃ p, tables.parserFor repr (ofString name) = .ok p) ∨
        Dotfile name ∧ (ext name).toLower ∈ supported) ∧
    (Dotfile name → tables.parserFor repr (ofString name) = .error (.permanent .unsupportedType
      (some (ofString "unsupported extension " ++ repr [])))) := by
  refine ⟨?_, parserFor_dotfile⟩
  rw [createUpload_iff hl hext]
  by_cases hd : Dotfile name
  · have hnone : ¬ ∃ p, tables.parserFor repr (ofString name) = .ok p := by
      rw [parserFor_dotfile hd]
      rintro ⟨p, ⟨⟩⟩
    simp [hd, hnone]
  · rw [parserFor_iff ht hd]
    simp [hd]

end Admission

/-! ### Both sides at work -/

def goLower (c : Char) : Char :=
  if c = '\u212A' then 'k' else if c = '\u0130' then 'i' else c.toLower

def pyTables : LowerTables where
  lower c :=
    if c.val = 0x212A then ofString "k"
    else if c.val = 0x130 then ofString "i\u0307"
    else Rag.lower [c]
  finalSigma _ _ := false

def quote (s : PyStr) : PyStr := ofString "'" ++ s ++ ofString "'"

def handlers : Handlers := ⟨[".PDF", ".txt", ".Md"], goLower⟩

theorem isGoLower_goLower : IsGoLower goLower where
  ascii c hc := by
    have h₁ : c ≠ '\u212A' := by
      rintro rfl
      exact absurd hc (by decide)
    have h₂ : c ≠ '\u0130' := by
      rintro rfl
      exact absurd hc (by decide)
    simp [goLower, h₁, h₂]
  kelvin := rfl
  dotted := rfl
  other c hc h₁ h₂ := by simpa [goLower, h₁, h₂, toLower_of_le hc] using hc

theorem isUnicode_pyTables : pyTables.IsUnicode where
  ascii c hc := by
    have h₁ : c.val ≠ 0x212A := by omega
    have h₂ : c.val ≠ 0x130 := by omega
    simp [pyTables, h₁, h₂]
  kelvin c hc := by simp [pyTables, hc]
  other c hc h₁ := by
    by_cases h₂ : c.val = 0x130
    · exact ⟨.ofChar '\u0307', by simp [pyTables, h₂, ofString], by decide⟩
    · exact ⟨c, by simp [pyTables, h₁, h₂, lower_of_le hc], hc⟩

theorem sameExtensions_handlers : SameExtensions handlers := by
  have hmap : handlers.allowedExtensions.map String.toLower = supported := by
    simp [handlers, supported, parsers, ← String.toList_inj, toList_toLower]
  exact fun x => by rw [hmap]

theorem admitted_iff_report :
    (handlers.createUpload (some ⟨"report.PDF"⟩) = .ok "report.PDF" ↔
      (∃ p, pyTables.parserFor quote (ofString "report.PDF") = .ok p) ∨
        Dotfile "report.PDF" ∧ (ext "report.PDF").toLower ∈ supported) ∧
    (Dotfile "report.PDF" → pyTables.parserFor quote (ofString "report.PDF") =
      .error (.permanent .unsupportedType
        (some (ofString "unsupported extension " ++ quote [])))) :=
  admitted_iff isGoLower_goLower isUnicode_pyTables sameExtensions_handlers

/-- The center admits the name `.pdf`, for which there is no parser. -/
theorem not_admitted_agrees : ¬ ∀ (h : Handlers) (tables : LowerTables) (repr : PyStr → PyStr)
    (name : String), IsGoLower h.lower → tables.IsUnicode → SameExtensions h →
    (h.createUpload (some ⟨name⟩) = .ok name ↔
      ∃ p, tables.parserFor repr (ofString name) = .ok p) := by
  intro hall
  have hadmit : handlers.createUpload (some ⟨".pdf"⟩) = .ok ".pdf" := by decide
  obtain ⟨p, hp⟩ := (hall handlers pyTables quote ".pdf" isGoLower_goLower isUnicode_pyTables
    sameExtensions_handlers).1 hadmit
  rw [parserFor_dotfile ⟨0, ['p', 'd', 'f'], by decide, by decide⟩] at hp
  cases hp

end Pipeline
