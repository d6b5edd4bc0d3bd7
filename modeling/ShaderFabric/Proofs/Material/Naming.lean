/-
# When two names of a program are one text

An identifier of a program is the declared name, `_r`, and the path, each segment with its length
before it.  Nothing closes the name, so a name that ends in the start of a path runs into it:
`x` at `a_r1b` and `x_r5a` at `b` are both `x_r5a_r1b`.

* `encodePath_eq_iff`: where an `_r` can stand in an encoded path, namely inside a segment;
* `encodePath_injective`: paths of identifiers have one encoding each;
* `mangle_eq_iff`, `mangle_eq_append_iff`: when an identifier is another one, or another one with a
  suffix;
* `identifiers_text_eq_iff`: the exact condition under which two identifiers of a program, or an
  identifier and a function, are one text.
-/
import Mathlib.Data.List.Infix
import ShaderFabric.Proofs.Material.Tree

namespace ShaderFabric

/-! ## 1. Encoded paths -/

theorem toList_encodePath_cons (segment : String) (path : List String) :
    (encodePath (segment :: path)).toList =
      Nat.toDigits 10 segment.utf8ByteSize ++ (segment.toList ++ (encodePath path).toList) := by
  simp only [encodePath, String.toList_append, Nat.toString_eq_ofList_toDigits,
    String.toList_ofList, List.append_assoc]

theorem encodePath_append : ∀ path rest : List String,
    encodePath (path ++ rest) = encodePath path ++ encodePath rest
  | [], rest => by simp [encodePath]
  | segment :: path, rest => by
    simp only [List.cons_append, encodePath, encodePath_append path rest, String.append_assoc]

/-- An encoded path is empty or starts with a digit. -/
theorem isDigit_of_encodePath_eq {c : Char} {rest : List Char} : ∀ {path : List String},
    (encodePath path).toList = c :: rest → c.isDigit = true
  | [], h => by simp [encodePath] at h
  | segment :: path, h => by
    rw [toList_encodePath_cons] at h
    cases hd : Nat.toDigits 10 segment.utf8ByteSize with
    | nil => exact absurd hd Nat.toDigits_ne_nil
    | cons d ds =>
      rw [hd, List.cons_append, List.cons.injEq] at h
      rw [← h.1]
      exact Nat.isDigit_of_mem_toDigits (by decide) (by decide) (hd ▸ List.mem_cons_self)

theorem not_isDigit_of_mem_toDigits {c : Char} {n : Nat} (h : c.isDigit = false) :
    c ∉ Nat.toDigits 10 n := fun hc => by
  rw [Nat.isDigit_of_mem_toDigits (by decide) (by decide) hc] at h
  exact Bool.false_ne_true h.symm

/-- Two texts that continue equal numbers with no digit are equal, and so are the numbers. -/
theorem toDigits_append_inj {m n : Nat} {c d : Char} {cs ds : List Char}
    (hc : c.isDigit = false) (hd : d.isDigit = false)
    (h : Nat.toDigits 10 m ++ c :: cs = Nat.toDigits 10 n ++ d :: ds) :
    m = n ∧ c :: cs = d :: ds := by
  rcases List.append_eq_append_iff.mp h with ⟨extra, hn, hrest⟩ | ⟨extra, hm, hrest⟩
  · cases extra with
    | nil =>
      rw [List.append_nil] at hn
      refine ⟨?_, hrest⟩
      rw [← Nat.ofDigitChars_ten_toDigits (n := m), ← hn, Nat.ofDigitChars_ten_toDigits]
    | cons e extra =>
      rw [List.cons_append, List.cons.injEq] at hrest
      refine absurd ?_ (not_isDigit_of_mem_toDigits hc (n := n))
      rw [hn, hrest.1]
      exact List.mem_append_right _ List.mem_cons_self
  · cases extra with
    | nil =>
      rw [List.append_nil] at hm
      refine ⟨?_, hrest.symm⟩
      rw [← Nat.ofDigitChars_ten_toDigits (n := m), hm, Nat.ofDigitChars_ten_toDigits]
    | cons e extra =>
      rw [List.cons_append, List.cons.injEq] at hrest
      refine absurd ?_ (not_isDigit_of_mem_toDigits hd (n := m))
      rw [hm, hrest.1]
      exact List.mem_append_right _ List.mem_cons_self

/-- Of two starts of one text that take as many bytes, neither is longer. -/
theorem eq_of_append_eq_of_utf8ByteSize_eq {s t u v : String} (h : s ++ u = t ++ v)
    (hsize : s.utf8ByteSize = t.utf8ByteSize) : s = t ∧ u = v := by
  have hlists := congrArg String.toList h
  rw [String.toList_append, String.toList_append] at hlists
  have same : ∀ {a b : String} {extra : List Char}, b.toList = a.toList ++ extra →
      a.utf8ByteSize = b.utf8ByteSize → extra = [] := by
    intro a b extra hb hab
    have hb' : b = a ++ String.ofList extra := by
      rw [← String.toList_inj, String.toList_append, String.toList_ofList, hb]
    rw [hb', String.utf8ByteSize_append] at hab
    have hempty := String.utf8ByteSize_eq_zero_iff.mp (by omega :
      (String.ofList extra).utf8ByteSize = 0)
    rw [← String.toList_inj, String.toList_ofList] at hempty
    exact hempty
  rcases List.append_eq_append_iff.mp hlists with ⟨extra, ht, hu⟩ | ⟨extra, hs, hv⟩
  · obtain rfl := same ht hsize
    rw [List.append_nil] at ht
    exact ⟨(String.toList_inj.mp ht).symm, String.toList_inj.mp hu⟩
  · obtain rfl := same hs hsize.symm
    rw [List.append_nil] at hs
    exact ⟨String.toList_inj.mp hs, (String.toList_inj.mp hv).symm⟩

/-- **A path of identifiers can be read back**, also from a text that goes on with something that
starts with no digit: a segment starts with no digit either, so its length ends where it starts. -/
theorem encodePath_eq_append {suffix : String}
    (hsuffix : ∀ c, suffix.toList.head? = some c → c.isDigit = false) :
    ∀ {path other : List String},
    (∀ segment ∈ path, IsIdentifier segment) → (∀ segment ∈ other, IsIdentifier segment) →
      encodePath path = encodePath other ++ suffix → path = other ∧ suffix = ""
  | [], other, _, _, h => by
    obtain ⟨hother, hempty⟩ := String.append_eq_empty_iff.mp h.symm
    cases other with
    | nil => exact ⟨rfl, hempty⟩
    | cons segment other =>
      have hlists := congrArg String.toList hother
      rw [toList_encodePath_cons] at hlists
      simp [Nat.toDigits_ne_nil] at hlists
  | segment :: path, [], _, _, h => by
    have hlists := congrArg String.toList h
    rw [toList_encodePath_cons] at hlists
    cases hd : Nat.toDigits 10 segment.utf8ByteSize with
    | nil => exact absurd hd Nat.toDigits_ne_nil
    | cons d ds =>
      have hdigit : d.isDigit = true :=
        Nat.isDigit_of_mem_toDigits (by decide) (by decide) (hd ▸ List.mem_cons_self)
      rw [hd] at hlists
      have hhead : suffix.toList.head? = some d := by
        simp only [encodePath, String.empty_append] at hlists
        rw [← hlists]
        rfl
      rw [hsuffix d hhead] at hdigit
      exact absurd hdigit Bool.false_ne_true
  | segment :: path, segment' :: other, hpath, hother, h => by
    have hlists := congrArg String.toList h
    rw [String.toList_append, toList_encodePath_cons, toList_encodePath_cons, List.append_assoc,
      List.append_assoc] at hlists
    obtain ⟨c, cs, hc, hcstart, -⟩ := hpath segment List.mem_cons_self
    obtain ⟨d, ds, hd, hdstart, -⟩ := hother segment' List.mem_cons_self
    rw [hc, hd, List.cons_append, List.cons_append] at hlists
    obtain ⟨hsize, hrest⟩ := toDigits_append_inj (isDigit_eq_false_of_isWordStart hcstart)
      (isDigit_eq_false_of_isWordStart hdstart) hlists
    rw [← List.cons_append, ← List.cons_append, ← hc, ← hd, ← String.toList_append,
      ← String.toList_append, ← String.toList_append, String.toList_inj] at hrest
    obtain ⟨rfl, htail⟩ := eq_of_append_eq_of_utf8ByteSize_eq hrest hsize
    obtain ⟨rfl, hempty⟩ := encodePath_eq_append hsuffix
      (fun s hs => hpath s (List.mem_cons_of_mem _ hs))
      (fun s hs => hother s (List.mem_cons_of_mem _ hs)) htail
    exact ⟨rfl, hempty⟩

/-- Paths of identifiers have one encoding each. -/
theorem encodePath_injective {path other : List String}
    (hpath : ∀ segment ∈ path, IsIdentifier segment)
    (hother : ∀ segment ∈ other, IsIdentifier segment) (h : encodePath path = encodePath other) :
    path = other := by
  have hnone : ∀ c, ("" : String).toList.head? = some c → c.isDigit = false :=
    fun c hc => by cases hc
  exact (encodePath_eq_append hnone hpath hother (by rw [h, String.append_empty])).1

/-- What an encoded path ends in. -/
theorem getLast?_encodePath {path : List String} (h : ∀ segment ∈ path, IsIdentifier segment) :
    (encodePath path).toList.getLast? =
      path.getLast?.bind fun segment => segment.toList.getLast? := by
  have hlast : ∀ segment, IsIdentifier segment → ∃ last, segment.toList.getLast? = some last := by
    rintro segment ⟨c, cs, hsegment, -, -⟩
    exact ⟨_, by rw [hsegment, List.getLast?_cons]⟩
  induction path with
  | nil => rfl
  | cons segment rest ih =>
    obtain ⟨hsegment, hrest⟩ := List.forall_mem_cons.mp h
    rw [toList_encodePath_cons, List.getLast?_append, List.getLast?_append, ih hrest,
      List.getLast?_cons]
    cases hend : rest.getLast? with
    | none =>
      obtain ⟨last, hlast⟩ := hlast segment hsegment
      simp [hlast]
    | some other =>
      obtain ⟨last, hlast⟩ := hlast other (hrest other (List.mem_of_getLast? hend))
      simp [hlast]

/-! ## 2. Where an `_r` can stand -/

/-- An `_r` in two texts, one after the other, is in one of them, unless the second starts with
`r`. -/
theorem break_append {a b x z : List Char} (hb : ∀ rest, b ≠ 'r' :: rest)
    (h : a ++ b = x ++ '_' :: 'r' :: z) :
    (∃ y, x = a ++ y ∧ b = y ++ '_' :: 'r' :: z) ∨
      ∃ y, a = x ++ '_' :: 'r' :: y ∧ z = y ++ b := by
  rcases List.append_eq_append_iff.mp h with ⟨y, hx, hy⟩ | ⟨y, ha, hy⟩
  · exact .inl ⟨y, hx, hy⟩
  · match y, hy with
    | [], hy => exact .inl ⟨[], by simpa using ha.symm, by simpa using hy.symm⟩
    | [c], hy =>
      simp only [List.cons_append, List.nil_append, List.cons.injEq] at hy
      exact absurd hy.2.symm (hb z)
    | c :: d :: y, hy =>
      simp only [List.cons_append, List.cons.injEq] at hy
      obtain ⟨rfl, rfl, rfl⟩ := hy
      exact .inr ⟨y, ha, rfl⟩

/-- A character that is not in the first of two texts is in the second. -/
theorem break_of_not_mem {a b x z : List Char} {c : Char} (hc : c ∉ a)
    (h : a ++ b = x ++ c :: z) : ∃ y, x = a ++ y ∧ b = y ++ c :: z := by
  rcases List.append_eq_append_iff.mp h with ⟨y, hx, hy⟩ | ⟨y, ha, hy⟩
  · exact ⟨y, hx, hy⟩
  · cases y with
    | nil => exact ⟨[], by simpa using ha.symm, by simpa using hy.symm⟩
    | cons d y =>
      rw [List.cons_append, List.cons.injEq] at hy
      refine absurd ?_ hc
      rw [ha, hy.1]
      exact List.mem_append_right _ List.mem_cons_self

/-- The encoding of a path has an `_r` between `head` and `tail`: it lies inside a segment. -/
def BreaksAt (path : List String) (head tail : String) : Prop :=
  ∃ before left right after, path = before ++ (left ++ "_r" ++ right) :: after ∧
    head = encodePath before ++ toString (left ++ "_r" ++ right).utf8ByteSize ++ left ∧
    tail = right ++ encodePath after

theorem encodePath_ne_r (path : List String) (rest : List Char) :
    (encodePath path).toList ≠ 'r' :: rest := fun h =>
  absurd (isDigit_of_encodePath_eq h) (by decide)

theorem breaksAt_of_toList : ∀ {path : List String} {x z : List Char},
    (encodePath path).toList = x ++ '_' :: 'r' :: z →
      BreaksAt path (String.ofList x) (String.ofList z)
  | [], x, z, h => by simp [encodePath] at h
  | segment :: path, x, z, h => by
    rw [toList_encodePath_cons, ← List.append_assoc] at h
    rcases break_append (encodePath_ne_r path) h with ⟨y, hx, hrest⟩ | ⟨y, hsegment, hz⟩
    · -- further down the path
      obtain ⟨before, left, right, after, rfl, hhead, htail⟩ := breaksAt_of_toList hrest
      refine ⟨segment :: before, left, right, after, rfl, ?_, htail⟩
      rw [hx, String.ofList_append, hhead]
      simp only [encodePath, Nat.toString_eq_ofList_toDigits, String.ofList_append,
        String.ofList_toList, String.append_assoc]
    · -- in the first segment, and not in the length before it
      obtain ⟨l, hx, hl⟩ := break_of_not_mem Nat.underscore_not_in_toDigits hsegment
      have hsegment' : segment = String.ofList l ++ "_r" ++ String.ofList y := by
        rw [← String.toList_inj]
        simpa using hl
      refine ⟨[], String.ofList l, String.ofList y, path, ?_, ?_, ?_⟩
      · rw [List.nil_append, ← hsegment']
      · rw [← hsegment', hx, String.ofList_append, Nat.toString_eq_ofList_toDigits]
        simp [encodePath]
      · rw [hz, String.ofList_append, String.ofList_toList]

/-- **An encoded path breaks at an `_r` only inside a segment**, and at each of these. -/
theorem encodePath_eq_iff {path : List String} {head tail : String} :
    encodePath path = head ++ "_r" ++ tail ↔ BreaksAt path head tail := by
  constructor
  · intro h
    have hlists : (encodePath path).toList = head.toList ++ '_' :: 'r' :: tail.toList := by
      rw [h]
      simp
    have hbreak := breaksAt_of_toList hlists
    rwa [String.ofList_toList, String.ofList_toList] at hbreak
  · rintro ⟨before, left, right, after, rfl, rfl, rfl⟩
    simp only [encodePath_append, encodePath, String.append_assoc]

/-- A name with an `_r` in it, as every bound name has. -/
def HasBreak (name : String) : Prop := ['_', 'r'] <:+: name.toList

instance (name : String) : Decidable (HasBreak name) :=
  inferInstanceAs (Decidable (['_', 'r'] <:+: name.toList))

theorem hasBreak_mangle (name : String) (path : List String) : HasBreak (mangle name path) :=
  ⟨name.toList, (encodePath path).toList, by simp [mangle]⟩

theorem HasBreak.around {name : String} (h : HasBreak name) (front behind : String) :
    HasBreak (front ++ name ++ behind) := by
  unfold HasBreak
  rw [String.toList_append, String.toList_append]
  exact h.trans ⟨front.toList, behind.toList, rfl⟩

theorem ne_of_hasBreak {name word : String} (h : HasBreak name) (hword : ¬ HasBreak word) :
    name ≠ word := by
  rintro rfl
  exact hword h

/-! ## 3. Identifiers and functions of one text -/

/-- The name of one uniform runs into the path of another one: it is the other name, `_r`, and the
path up to an `_r` in one of its segments, and its own path is encoded as what remains. -/
def RunsInto (name : String) (path : List String) (longer : String) (rest : List String) : Prop :=
  ∃ head, longer = name ++ "_r" ++ head ∧ BreaksAt path head (encodePath rest)

/-- The name of a uniform takes in the function of a path up to an `_r` in one of its segments. -/
def RunsIntoFunction (name : String) (path : List String) (rest : List String) : Prop :=
  ∃ head, name = entryPoint ++ "_" ++ head ∧ BreaksAt path head (encodePath rest)

theorem mangle_eq_of_runsInto {name longer : String} {path rest : List String}
    (h : RunsInto name path longer rest) : mangle name path = mangle longer rest := by
  obtain ⟨head, rfl, hbreak⟩ := h
  simp only [mangle, encodePath_eq_iff.mpr hbreak, String.append_assoc]

/-- An `_r` that a text starts with, and one that comes after something. -/
theorem cases_of_break {a y z : List Char} (h : '_' :: 'r' :: a = y ++ '_' :: 'r' :: z) :
    (y = [] ∧ a = z) ∨ ∃ rest, y = '_' :: 'r' :: rest ∧ a = rest ++ '_' :: 'r' :: z := by
  match y, h with
  | [], h =>
    simp only [List.nil_append, List.cons.injEq, true_and] at h
    exact .inl ⟨rfl, h⟩
  | [c], h =>
    simp only [List.cons_append, List.nil_append, List.cons.injEq] at h
    exact absurd h.2.1 (by decide)
  | c :: d :: rest, h =>
    simp only [List.cons_append, List.cons.injEq] at h
    obtain ⟨rfl, rfl, h⟩ := h
    exact .inr ⟨rest, rfl, h⟩

theorem runsInto_of_toList {name longer : String} {path rest : List String} {y : List Char}
    (hname : longer.toList = name.toList ++ y)
    (h : '_' :: 'r' :: (encodePath path).toList =
      y ++ '_' :: 'r' :: (encodePath rest).toList) :
    (name = longer ∧ encodePath path = encodePath rest) ∨ RunsInto name path longer rest := by
  rcases cases_of_break h with ⟨rfl, hpaths⟩ | ⟨head, rfl, hpath⟩
  · rw [List.append_nil, String.toList_inj] at hname
    exact .inl ⟨hname.symm, String.toList_inj.mp hpaths⟩
  · have hbreak := breaksAt_of_toList hpath
    rw [String.ofList_toList] at hbreak
    refine .inr ⟨String.ofList head, ?_, hbreak⟩
    rw [← String.toList_inj]
    simpa using hname

/-- **Two uniforms have one identifier** exactly when one of the names runs into the path of the
other. -/
theorem mangle_eq_iff {name other : String} {path otherPath : List String} :
    mangle name path = mangle other otherPath ↔
      (name = other ∧ encodePath path = encodePath otherPath) ∨
        RunsInto name path other otherPath ∨ RunsInto other otherPath name path := by
  constructor
  · intro h
    have hlists := congrArg String.toList h
    simp only [mangle, String.toList_append, List.append_assoc] at hlists
    rcases List.append_eq_append_iff.mp hlists with ⟨y, hother, hy⟩ | ⟨y, hname, hy⟩
    · exact (runsInto_of_toList hother hy).imp_right .inl
    · refine (runsInto_of_toList hname hy).imp ?_ .inr
      exact fun h => ⟨h.1.symm, h.2.symm⟩
  · rintro (⟨rfl, h⟩ | h | h)
    · rw [mangle, mangle, h]
    · exact mangle_eq_of_runsInto h
    · exact (mangle_eq_of_runsInto h).symm

/-- **The identifier of one uniform is that of another one with a suffix** exactly when one of the
names runs into the path of the other, with the suffix behind it. -/
theorem mangle_eq_append_iff {name other suffix : String} {path otherPath : List String}
    (hpath : ∀ segment ∈ path, IsIdentifier segment)
    (hother : ∀ segment ∈ otherPath, IsIdentifier segment)
    (hsuffix : suffix.toList.head? = some '_') (hbreak : ¬ ['_', 'r'] <:+: suffix.toList) :
    mangle name path = mangle other otherPath ++ suffix ↔
      (∃ head, other = name ++ "_r" ++ head ∧
        BreaksAt path head (encodePath otherPath ++ suffix)) ∨
      ∃ head tail, name = other ++ "_r" ++ head ∧ BreaksAt otherPath head tail ∧
        encodePath path = tail ++ suffix := by
  have hpaths : (encodePath path).toList ≠ (encodePath otherPath).toList ++ suffix.toList := by
    intro heq
    rw [← String.toList_append, String.toList_inj] at heq
    have hdigit : ∀ c, suffix.toList.head? = some c → c.isDigit = false := by
      intro c hc
      rw [hsuffix] at hc
      cases hc
      decide
    have hempty := (encodePath_eq_append hdigit hpath hother heq).2
    rw [hempty] at hsuffix
    cases hsuffix
  have hstart : ∀ rest, suffix.toList ≠ 'r' :: rest := by
    intro rest heq
    rw [heq] at hsuffix
    cases hsuffix
  constructor
  · intro h
    have hlists := congrArg String.toList h
    simp only [mangle, String.toList_append, List.append_assoc] at hlists
    rcases List.append_eq_append_iff.mp hlists with ⟨y, hname, hy⟩ | ⟨y, hname, hy⟩
    · rcases cases_of_break hy with ⟨-, heq⟩ | ⟨head, rfl, hrest⟩
      · exact absurd heq hpaths
      · have hbroken : BreaksAt path (String.ofList head)
            (String.ofList ((encodePath otherPath).toList ++ suffix.toList)) :=
          breaksAt_of_toList hrest
        rw [String.ofList_append, String.ofList_toList, String.ofList_toList] at hbroken
        refine .inl ⟨String.ofList head, ?_, hbroken⟩
        rw [← String.toList_inj]
        simpa using hname
    · rcases cases_of_break hy with ⟨-, heq⟩ | ⟨head, rfl, hrest⟩
      · exact absurd heq.symm hpaths
      · rcases break_append hstart hrest with ⟨z, -, hz⟩ | ⟨tail, hbroken, htail⟩
        · exact absurd ⟨z, _, by simpa using hz.symm⟩ hbreak
        · refine .inr ⟨String.ofList head, String.ofList tail, ?_, breaksAt_of_toList hbroken, ?_⟩
          · rw [← String.toList_inj]
            simpa using hname
          · rw [← String.toList_inj]
            simpa using htail
  · rintro (⟨head, rfl, hbroken⟩ | ⟨head, tail, rfl, hbroken, htail⟩)
    · simp only [mangle, encodePath_eq_iff.mpr hbroken, String.append_assoc]
    · simp only [mangle, encodePath_eq_iff.mpr hbroken, htail, String.append_assoc]

theorem entryPoint_ne_break {x z : List Char} : entryPoint.toList ++ ['_'] ≠ x ++ '_' :: 'r' :: z :=
  fun h => by
    have hinfix : ['_', 'r'] <:+: entryPoint.toList ++ ['_'] := ⟨x, z, by simpa using h.symm⟩
    have hnot : ¬ ['_', 'r'] <:+: entryPoint.toList ++ ['_'] := by decide
    exact hnot hinfix

/-- **An identifier is a function** exactly when the name of the uniform runs into the function. -/
theorem mangle_eq_functionName_iff {name : String} {path functionPath : List String} :
    mangle name path = functionName functionPath ↔ RunsIntoFunction name functionPath path := by
  constructor
  · intro h
    have hlists := congrArg String.toList h
    cases functionPath with
    | nil =>
      simp only [mangle, functionName, List.isEmpty_nil, if_true, String.toList_append] at hlists
      refine absurd (?_ : entryPoint.toList ++ ['_'] = name.toList ++ '_' :: 'r' ::
        ((encodePath path).toList ++ ['_'])) entryPoint_ne_break
      rw [← hlists]
      simp
    | cons segment rest =>
      have hcut : (entryPoint.toList ++ ['_']) ++ (encodePath (segment :: rest)).toList =
          name.toList ++ '_' :: 'r' :: (encodePath path).toList := by
        simpa [mangle, functionName] using hlists.symm
      rcases break_append (encodePath_ne_r _) hcut with ⟨y, hname, hy⟩ | ⟨y, hentry, -⟩
      · have hbreak := breaksAt_of_toList hy
        rw [String.ofList_toList] at hbreak
        refine ⟨String.ofList y, ?_, hbreak⟩
        rw [← String.toList_inj]
        simpa using hname
      · exact absurd hentry entryPoint_ne_break
  · rintro ⟨head, rfl, hbreak⟩
    have hne : functionPath ≠ [] := by
      obtain ⟨before, left, right, after, rfl, -⟩ := hbreak
      simp
    simp only [mangle, functionName, List.isEmpty_iff, hne, if_false,
      encodePath_eq_iff.mpr hbreak, String.append_assoc]

/-! ## 4. The names of a program -/

/-- An identifier of a program, with the uniform it stands for. -/
structure Identifier where
  path : List String
  name : String
  text : String
  deriving DecidableEq

namespace Program

/-- The identifiers of one node. -/
def ownIdentifiers (program : Program) : List Identifier :=
  program.uniforms.filterMap fun uniform =>
    uniform.mangled.map fun text => ⟨program.path, uniform.name, text⟩

/-- The identifiers of the whole tree, sub-materials first. -/
def identifiers (program : Program) : List Identifier := program.nodes.flatMap ownIdentifiers

/-- The functions of the nodes that are part of the program, each with its path. -/
def functions (program : Program) : List (List String × String) :=
  (program.nodes.filter Program.emitted).map fun node => (node.path, node.function)

end Program

/-- Only a uniform of an emitted node has an identifier, and it is the mangled name. -/
theorem mem_ownIdentifiers_composeNode {emitted : Bool} {node : Node} {v : Identifier}
    (h : v ∈ (composeNode emitted node).ownIdentifiers) :
    emitted = true ∧ v.path = node.path ∧ v.text = mangle v.name v.path ∧
      ∃ uniform ∈ node.uniforms, uniform.name = v.name ∧ uniform.used = true ∧
        uniform.value.isSelector = false := by
  simp only [Program.ownIdentifiers, uniforms_composeNode, path_composeNode, List.filterMap_map,
    List.mem_filterMap, Function.comp_apply, composeUniform, Option.map_eq_some_iff] at h
  obtain ⟨uniform, hmem, text, hbound, rfl⟩ := h
  split at hbound
  · rename_i hall
    simp only [Bool.and_eq_true, Bool.not_eq_true'] at hall
    cases hbound
    exact ⟨hall.1.1, rfl, rfl, uniform, hmem, rfl, hall.1.2, hall.2⟩
  · cases hbound

/-- **Where an identifier comes from**: its text is its mangled name, and its path consists of
identifiers. -/
theorem mem_identifiers_compose {root : Node} (hroot : root.path = []) (hwf : root.WellFormed)
    {v : Identifier} (h : v ∈ (compose root).identifiers) :
    v.text = mangle v.name v.path ∧ ∀ segment ∈ v.path, IsIdentifier segment := by
  obtain ⟨program, hprogram, hv⟩ := List.mem_flatMap.mp h
  obtain ⟨origin, -, heq, hpath⟩ := mem_nodes_composeNode root true hwf
    (fun _ segment hs => absurd (hroot ▸ hs) List.not_mem_nil) program hprogram
  rw [heq] at hv
  obtain ⟨hemitted, hvpath, htext, -⟩ := mem_ownIdentifiers_composeNode hv
  rw [hvpath] at htext ⊢
  exact ⟨htext, hpath hemitted⟩

theorem mem_functions_compose {root : Node} (hwf : root.WellFormed) {f : List String × String}
    (hroot : root.path = []) (h : f ∈ (compose root).functions) : f.2 = functionName f.1 := by
  obtain ⟨program, hprogram, rfl⟩ := List.mem_map.mp h
  obtain ⟨origin, -, heq, -⟩ := mem_nodes_composeNode root true hwf
    (fun _ segment hs => absurd (hroot ▸ hs) List.not_mem_nil) program
    (List.mem_filter.mp hprogram).1
  rw [heq, function_composeNode, path_composeNode]

/-- **When the names of a program collide.**  Two identifiers of a program are one text exactly when
they stand for one uniform at one path or one of the names runs into the path of the other; and an
identifier is a function of the program exactly when its name runs into that function. -/
theorem identifiers_text_eq_iff {library : Library} {strict : Bool} {fabric : Fabric} {root : Node}
    (h : resolve library strict fabric = .ok root) :
    (∀ a ∈ (compose root).identifiers, ∀ b ∈ (compose root).identifiers,
      a.text = b.text ↔ (a.path = b.path ∧ a.name = b.name) ∨
        RunsInto a.name a.path b.name b.path ∨ RunsInto b.name b.path a.name a.path) ∧
    ∀ a ∈ (compose root).identifiers, ∀ f ∈ (compose root).functions,
      a.text = f.2 ↔ RunsIntoFunction a.name f.1 a.path := by
  obtain ⟨hroot, hwf⟩ := wellFormed_resolve h
  constructor
  · intro a ha b hb
    obtain ⟨hatext, hapath⟩ := mem_identifiers_compose hroot hwf ha
    obtain ⟨hbtext, hbpath⟩ := mem_identifiers_compose hroot hwf hb
    rw [hatext, hbtext, mangle_eq_iff]
    refine or_congr_left ⟨fun h => ⟨encodePath_injective hapath hbpath h.2, h.1⟩, ?_⟩
    rintro ⟨hpath, hname⟩
    exact ⟨hname, by rw [hpath]⟩
  · intro a ha f hf
    rw [(mem_identifiers_compose hroot hwf ha).1, mem_functions_compose hwf hroot hf,
      mangle_eq_functionName_iff]

/-! ## 5. Two sub-materials of one template

The template declares `x` and `x_r5a`; its copies at `a_r1b` and `b` share an identifier.  And a
uniform of a root can be named like the function of a sub-material. -/

namespace Example

/-- Two numbers under names of which one takes in the start of a path. -/
def pair : Template :=
  { name := "Pair"
    fabric :=
      { uniforms := [("x", .bool true), ("x_r5a", .bool false)]
        components := some [("diffuse", "vec3(x && x_r5a)")] }
    translucency := .never }

def pairs : Library := ⟨[("Pair", pair)]⟩

/-- Two copies of the template. -/
def copies : Fabric :=
  { materials := [("a_r1b", Fabric.ofType "Pair"), ("b", Fabric.ofType "Pair")]
    components := some [("diffuse", "a_r1b.diffuse + b.diffuse")] }

/-- A uniform named like a function. -/
def caller : Fabric :=
  { uniforms := [("fabric_getMaterial_3a", .bool true)]
    materials := [("a_r", Fabric.ofType "Color")]
    components := some [("diffuse", "a_r.diffuse * float(fabric_getMaterial_3a)")] }

/-- The names of the program of a fabric. -/
def namesOf (library : Library) (fabric : Fabric) :
    Option (List Identifier × List (List String × String)) :=
  (resolve library true fabric).toOption.map fun root =>
    ((compose root).identifiers, (compose root).functions)

theorem resolve_of_namesOf {library : Library} {fabric : Fabric} {ids : List Identifier}
    {functions : List (List String × String)} (h : namesOf library fabric = some (ids, functions)) :
    ∃ root, resolve library true fabric = .ok root ∧ (compose root).identifiers = ids ∧
      (compose root).functions = functions := by
  obtain ⟨root, hroot, hnames⟩ := toOption_map_eq_some h
  exact ⟨root, hroot, Prod.mk.inj hnames⟩

theorem namesOf_copies : namesOf pairs copies = some
    ([⟨["a_r1b"], "x", "x_r5a_r1b"⟩, ⟨["a_r1b"], "x_r5a", "x_r5a_r5a_r1b"⟩,
      ⟨["b"], "x", "x_r1b"⟩, ⟨["b"], "x_r5a", "x_r5a_r1b"⟩],
     [(["a_r1b"], "fabric_getMaterial_5a_r1b"), (["b"], "fabric_getMaterial_1b"),
      ([], "fabric_getMaterial")]) := by
  decide +kernel

theorem namesOf_caller : namesOf Library.empty caller = some
    ([⟨["a_r"], "color", "color_r3a_r"⟩,
      ⟨[], "fabric_getMaterial_3a", "fabric_getMaterial_3a_r"⟩],
     [(["a_r"], "fabric_getMaterial_3a_r"), ([], "fabric_getMaterial")]) := by
  decide +kernel

/-- Identifiers of different uniforms can be one text, and an identifier can be a function. -/
theorem names_collide :
    (∃ root, resolve pairs true copies = .ok root ∧
      ∃ a ∈ (compose root).identifiers, ∃ b ∈ (compose root).identifiers,
        (a.path, a.name) ≠ (b.path, b.name) ∧ a.text = b.text) ∧
    ∃ root, resolve Library.empty true caller = .ok root ∧
      ∃ a ∈ (compose root).identifiers, ∃ f ∈ (compose root).functions, a.text = f.2 := by
  constructor
  · obtain ⟨root, hroot, hids, -⟩ := resolve_of_namesOf namesOf_copies
    refine ⟨root, hroot, ⟨["a_r1b"], "x", "x_r5a_r1b"⟩, ?_, ⟨["b"], "x_r5a", "x_r5a_r1b"⟩, ?_, ?_⟩
    · rw [hids]; decide
    · rw [hids]; decide
    · decide
  · obtain ⟨root, hroot, hids, hfunctions⟩ := resolve_of_namesOf namesOf_caller
    refine ⟨root, hroot, ⟨[], "fabric_getMaterial_3a", "fabric_getMaterial_3a_r"⟩, ?_,
      (["a_r"], "fabric_getMaterial_3a_r"), ?_, rfl⟩
    · rw [hids]; decide
    · rw [hfunctions]; decide

/-- The shared identifier of the two copies, by the general condition. -/
theorem copies_run_into : ∃ root, resolve pairs true copies = .ok root ∧
    (⟨["a_r1b"], "x", "x_r5a_r1b"⟩ : Identifier) ∈ (compose root).identifiers ∧
    (⟨["b"], "x_r5a", "x_r5a_r1b"⟩ : Identifier) ∈ (compose root).identifiers ∧
    (RunsInto "x" ["a_r1b"] "x_r5a" ["b"] ∨ RunsInto "x_r5a" ["b"] "x" ["a_r1b"]) := by
  obtain ⟨root, hroot, hids, -⟩ := resolve_of_namesOf namesOf_copies
  have ha : (⟨["a_r1b"], "x", "x_r5a_r1b"⟩ : Identifier) ∈ (compose root).identifiers := by
    rw [hids]; decide
  have hb : (⟨["b"], "x_r5a", "x_r5a_r1b"⟩ : Identifier) ∈ (compose root).identifiers := by
    rw [hids]; decide
  refine ⟨root, hroot, ha, hb, ?_⟩
  rcases ((identifiers_text_eq_iff hroot).1 _ ha _ hb).mp rfl with h | h
  · exact absurd h.1 (by decide)
  · exact h

end Example

end ShaderFabric
