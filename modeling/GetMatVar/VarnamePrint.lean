import GetMatVar.VarnameQueue

namespace GetMatVar
namespace VarnameQueue

inductive Component where
  | name (text : Text)
  | index (number : Nat)
  | coordinates (numbers : List Nat)
deriving DecidableEq,Repr

def isNameChar (char : UInt8) : Bool := !isDelimiter char && char != comma && char != space

-- index_t holds the numbers below 2^63, and a token up to 32 coordinates.
def Component.Valid : Component → Prop
  | .name text => text ≠ [] ∧ (∀ char ∈ text, isNameChar char = true) ∧ ∀ char ∈ text.head?, isDigit char = false
  | .index number => 1 ≤ number ∧ number < 2^63
  | .coordinates numbers => 2 ≤ numbers.length ∧ numbers.length ≤ hdf5MaxDims ∧ ∀ number ∈ numbers, number < 2^63

-- Decimal digits, zeros in front of them allowed.
structure Numeral (number : Nat) (text : Text) : Prop where
  shown : ∃ zeros, text = List.replicate zeros 48++digits number
  short : text.length < 256

inductive Body : Component → Text → Prop where
  | name : Body (.name text) text
  | index : Numeral number text → Body (.index number) text
  | coordinates : List.Forall₂ Numeral numbers texts → Body (.coordinates numbers) ([comma].intercalate texts)

def Component.selects : Component → Bool
  | .name _ => false
  | _ => true

-- Every name behind a dot, every index and all coordinates in parentheses or braces.
inductive Follows : List Component → Text → Prop where
  | nil : Follows [] []
  | name : Follows rest later → Follows (.name text::rest) (dot::text++later)
  | parentheses : component.selects = true → Body component body → Follows rest later →
    Follows (component::rest) (40::body++41::later)
  | braces : component.selects = true → Body component body → Follows rest later →
    Follows (component::rest) (123::body++125::later)

-- A name in front goes without a dot.
inductive Prints : List Component → Text → Prop where
  | named : Follows rest later → Prints (.name text::rest) (text++later)
  | other : Follows components text → Prints components text

inductive Spaced : Text → Text → Prop where
  | nil : Spaced [] []
  | char : Spaced printed text → Spaced (char::printed) (char::text)
  | space : Spaced printed text → Spaced printed (space::text)

def Holds : Component → Option VariableNameToken → Prop
  | _,none => False
  | .name text,some vnt => vnt.variableNameType = .localName ∧ vnt.variableLocalName = text
  | .index number,some vnt => vnt.variableNameType = .localIndex ∧ vnt.variableLocalIndex = number-1
  | .coordinates numbers,some vnt => vnt.variableNameType = .localCoordinates ∧
    vnt.variableLocalCoordinates = numbers.map (fun number : Nat => some (number : Int))++
      List.replicate (hdf5MaxDims-numbers.length) none

section Numerals

theorem digit_byte {char : Char} (numeric : char.isDigit = true) :
    isDigit (UInt8.ofNat char.toNat) = true ∧ charValue (UInt8.ofNat char.toNat)-48 = ((char.toNat-48 : Nat) : Int) := by
  have low : 48 ≤ char.toNat ∧ char.toNat ≤ 57 := by
    simp only [Char.isDigit,Bool.and_eq_true,decide_eq_true_eq] at numeric
    exact ⟨numeric.1,numeric.2⟩
  have value : (UInt8.ofNat char.toNat).toNat = char.toNat := by
    rw [UInt8.toNat_ofNat']
    omega
  constructor
  · simp only [isDigit,Bool.and_eq_true,decide_eq_true_eq,UInt8.le_iff_toNat_le,value]
    exact low
  · unfold charValue
    rw [value,if_pos (by omega)]
    omega

theorem decimalValue_chars (chars : List Char) (numeric : ∀ char ∈ chars, char.isDigit = true) (before : Nat) :
    decimalValue (chars.map fun char => UInt8.ofNat char.toNat) before = (Nat.ofDigitChars 10 chars before : Nat) := by
  induction chars generalizing before with
  | nil => simp [decimalValue]
  | cons char chars ih =>
    have value := (digit_byte (numeric char List.mem_cons_self)).2
    have next := ih (fun other member => numeric other (List.mem_cons_of_mem _ member)) (10*before+(char.toNat-48))
    rw [Nat.ofDigitChars_cons]
    change _ = ((Nat.ofDigitChars 10 chars (10*before+(char.toNat-48)) : Nat) : Int)
    rw [← next]
    unfold decimalValue
    rw [List.map_cons,List.foldl_cons,value]
    congr 1
    push_cast
    rw [Int.mul_comm]

-- Zeros in front of the digits are digits that leave the number as it is.
theorem numeral_chars (numeral : Numeral number text) : ∃ chars : List Char, chars ≠ [] ∧
    (∀ char ∈ chars, char.isDigit = true) ∧ text = chars.map (fun char => UInt8.ofNat char.toNat) ∧
    Nat.ofDigitChars 10 chars 0 = number := by
  obtain ⟨zeros,rfl⟩ := numeral.shown
  refine ⟨List.replicate zeros '0'++Nat.toDigits 10 number,?_,?_,?_,?_⟩
  · exact List.append_ne_nil_of_right_ne_nil _ Nat.toDigits_ne_nil
  · intro char member
    rcases List.mem_append.mp member with zero | digit
    · rw [List.eq_of_mem_replicate zero]
      rfl
    · exact Nat.isDigit_of_mem_toDigits (by decide) (by decide) digit
  · rw [List.map_append,List.map_replicate]
    rfl
  · rw [Nat.ofDigitChars_append,Nat.ofDigitChars_replicate_zero,Nat.mul_zero,Nat.ofDigitChars_ten_toDigits]

theorem numeral_digits (numeral : Numeral number text) : text ≠ [] ∧ ∀ char ∈ text, isDigit char = true := by
  obtain ⟨chars,some_,numeric,rfl,_⟩ := numeral_chars numeral
  refine ⟨by simpa using some_,fun char member => ?_⟩
  obtain ⟨digit,inside,rfl⟩ := List.mem_map.mp member
  exact (digit_byte (numeric digit inside)).1

theorem numeral_reads (numeral : Numeral number text) (fits : number < 2^63) : readDigits text 0 = number := by
  obtain ⟨chars,_,numeric,rfl,value⟩ := numeral_chars numeral
  have shows := decimalValue_chars chars numeric 0
  rw [value] at shows
  rw [readDigits_decimal]
  refine (congrArg wrapIndex shows).trans (wrapIndex_small ?_ ?_)
  · omega
  · omega

theorem digit_plain {char : UInt8} (numeric : isDigit char = true) : isNameChar char = true := by
  simp only [isDigit,Bool.and_eq_true,decide_eq_true_eq,UInt8.le_iff_toNat_le] at numeric
  obtain ⟨low,high⟩ := numeric
  unfold isNameChar isDelimiter comma space
  simp only [Bool.and_eq_true,Bool.not_eq_true',Bool.or_eq_false_iff,beq_eq_false_iff_ne,bne_iff_ne,ne_eq,← UInt8.toNat_inj]
  simp at low high ⊢
  omega

end Numerals

section Pieces

def Cut (isDelim : UInt8 → Bool) (text : Text) : Prop := ∀ char ∈ text.head?, isDelim char = true

theorem strtok_front {isDelim : UInt8 → Bool} {piece later : Text} (some_ : piece ≠ []) (plain : ∀ char ∈ piece, isDelim char = false)
    (cut : Cut isDelim later) : strtok isDelim (piece++later) = piece::strtok isDelim later := by
  cases later with
  | nil =>
    rw [List.append_nil,strtok_alone some_ plain]
    rfl
  | cons delim rest =>
    have delimiter : isDelim delim = true := cut delim rfl
    rw [strtok_split piece rest delimiter,strtok_alone some_ plain,strtok_skip rest delimiter]
    rfl

theorem strtok_joined {pieces : List Text} (good : ∀ piece ∈ pieces, piece ≠ [] ∧ ∀ char ∈ piece, (char == comma) = false) :
    strtok (· == comma) ([comma].intercalate pieces) = pieces := by
  induction pieces with
  | nil => rfl
  | cons piece rest ih =>
    obtain ⟨some_,plain⟩ := good piece List.mem_cons_self
    have later := ih fun other member => good other (List.mem_cons_of_mem _ member)
    cases rest with
    | nil =>
      rw [List.intercalate_singleton]
      exact strtok_alone some_ plain
    | cons next rest =>
      rw [List.intercalate_cons_cons,List.append_assoc,List.singleton_append,strtok_split piece _ (by decide),
        strtok_alone some_ plain,later]
      rfl

theorem numerals_read (numerals : List.Forall₂ Numeral numbers texts) (fits : ∀ number ∈ numbers, number < 2^63) :
    (∀ piece ∈ texts, piece ≠ [] ∧ (∀ char ∈ piece, isDigit char = true) ∧ piece.length ≤ maxTokenLength) ∧
      texts.map (readDigits · 0) = numbers.map (fun number : Nat => (number : Int)) ∧ texts.length = numbers.length := by
  induction numerals with
  | nil => exact ⟨fun piece member => absurd member List.not_mem_nil,rfl,rfl⟩
  | cons numeral _ ih =>
    obtain ⟨some_,numeric⟩ := numeral_digits numeral
    have value := numeral_reads numeral (fits _ List.mem_cons_self)
    obtain ⟨each,values,count⟩ := ih fun other member => fits other (List.mem_cons_of_mem _ member)
    refine ⟨fun piece member => ?_,by rw [List.map_cons,List.map_cons,value,values],by rw [List.length_cons,count]; rfl⟩
    rcases List.mem_cons.mp member with rfl | later
    · exact ⟨some_,numeric,Nat.le_of_lt_succ numeral.short⟩
    · exact each piece later

theorem joined_mem {pieces : List Text} {char : UInt8} (member : char ∈ [comma].intercalate pieces) :
    char = comma ∨ ∃ piece ∈ pieces, char ∈ piece := by
  induction pieces with
  | nil => cases member
  | cons piece rest ih =>
    cases rest with
    | nil =>
      rw [List.intercalate_singleton] at member
      exact .inr ⟨piece,List.mem_cons_self,member⟩
    | cons next rest =>
      rw [List.intercalate_cons_cons] at member
      rcases List.mem_append.mp member with front | later
      · rcases List.mem_append.mp front with here | cut
        · exact .inr ⟨piece,List.mem_cons_self,here⟩
        · exact .inl (List.mem_singleton.mp cut)
      · rcases ih later with cut | ⟨other,inside,here⟩
        · exact .inl cut
        · exact .inr ⟨other,List.mem_cons_of_mem _ inside,here⟩

theorem body_plain {component : Component} (valid : component.Valid) (body : Body component text) :
    text ≠ [] ∧ ∀ char ∈ text, isDelimiter char = false ∧ char ≠ space := by
  have plain : ∀ char : UInt8, isNameChar char = true → isDelimiter char = false ∧ char ≠ space := by
    intro char named
    simp only [isNameChar,Bool.and_eq_true,Bool.not_eq_true',bne_iff_ne] at named
    exact ⟨named.1.1,named.2⟩
  cases body with
  | name => exact ⟨valid.1,fun char member => plain char (valid.2.1 char member)⟩
  | index numeral =>
    obtain ⟨some_,numeric⟩ := numeral_digits numeral
    exact ⟨some_,fun char member => plain char (digit_plain (numeric char member))⟩
  | @coordinates numbers texts numerals =>
    obtain ⟨two,_,fits⟩ := valid
    obtain ⟨each,_,count⟩ := numerals_read numerals fits
    constructor
    · cases texts with
      | nil =>
        rw [← count] at two
        cases two
      | cons piece rest =>
        cases rest with
        | nil =>
          rw [List.intercalate_singleton]
          exact (each piece List.mem_cons_self).1
        | cons next rest =>
          rw [List.intercalate_cons_cons]
          exact List.append_ne_nil_of_left_ne_nil (List.append_ne_nil_of_left_ne_nil (each piece List.mem_cons_self).1 _) _
    · intro char member
      rcases joined_mem member with rfl | ⟨piece,inside,here⟩
      · exact ⟨by decide,by decide⟩
      · exact plain char (digit_plain ((each piece inside).2.1 char here))

theorem follows_tokens (follows : Follows components text) (valid : ∀ component ∈ components, component.Valid) :
    ∃ bodies, List.Forall₂ Body components bodies ∧ strtok isDelimiter text = bodies ∧ Cut isDelimiter text ∧
      ∀ char ∈ text, char ≠ space := by
  have enclosed : ∀ {component : Component} {rest : List Component} {body later : Text} (first last : UInt8),
      isDelimiter first = true → isDelimiter last = true → first ≠ space → last ≠ space → component.Valid →
      Body component body → (∃ bodies, List.Forall₂ Body rest bodies ∧ strtok isDelimiter later = bodies ∧
        Cut isDelimiter later ∧ ∀ char ∈ later, char ≠ space) →
      ∃ bodies, List.Forall₂ Body (component::rest) bodies ∧ strtok isDelimiter (first::body++last::later) = bodies ∧
        Cut isDelimiter (first::body++last::later) ∧ ∀ char ∈ first::body++last::later, char ≠ space := by
    rintro component rest body later first last open_ close noSpace noSpaceLast here shown ⟨bodies,others,split,_,spaces⟩
    obtain ⟨some_,plain⟩ := body_plain here shown
    refine ⟨body::bodies,.cons shown others,?_,fun char member => ?_,fun char member => ?_⟩
    · rw [List.cons_append,strtok_skip _ open_,strtok_front some_ (fun char member => (plain char member).1) (fun char member => by
        cases member
        exact close),strtok_skip _ close,split]
    · cases member
      exact open_
    · rcases List.mem_append.mp member with left | right
      · rcases List.mem_cons.mp left with rfl | inside
        · exact noSpace
        · exact (plain char inside).2
      · rcases List.mem_cons.mp right with rfl | inside
        · exact noSpaceLast
        · exact spaces char inside
  induction follows with
  | nil => exact ⟨[],.nil,rfl,fun char member => (by cases member),fun char member => (by cases member)⟩
  | @name rest later name follows ih =>
    obtain ⟨bodies,others,split,cut,spaces⟩ := ih fun other member => valid other (List.mem_cons_of_mem _ member)
    obtain ⟨some_,plain⟩ := body_plain (valid (.name name) List.mem_cons_self) Body.name
    refine ⟨name::bodies,.cons .name others,?_,fun char member => ?_,fun char member => ?_⟩
    · rw [List.cons_append,strtok_skip _ (by decide),strtok_front some_ (fun char member => (plain char member).1) cut,split]
    · cases member
      decide
    · rcases List.mem_append.mp member with left | right
      · rcases List.mem_cons.mp left with rfl | inside
        · decide
        · exact (plain char inside).2
      · exact spaces char right
  | parentheses _ body _ ih =>
    exact enclosed 40 41 (by decide) (by decide) (by decide) (by decide) (valid _ List.mem_cons_self) body
      (ih fun other member => valid other (List.mem_cons_of_mem _ member))
  | braces _ body _ ih =>
    exact enclosed 123 125 (by decide) (by decide) (by decide) (by decide) (valid _ List.mem_cons_self) body
      (ih fun other member => valid other (List.mem_cons_of_mem _ member))

theorem prints_tokens (prints : Prints components text) (valid : ∀ component ∈ components, component.Valid) :
    List.Forall₂ Body components (strtok isDelimiter text) ∧ ∀ char ∈ text, char ≠ space := by
  cases prints with
  | @named rest later name follows =>
    obtain ⟨bodies,others,split,cut,spaces⟩ := follows_tokens follows fun other member => valid other (List.mem_cons_of_mem _ member)
    obtain ⟨some_,plain⟩ := body_plain (valid (.name name) List.mem_cons_self) Body.name
    constructor
    · rw [strtok_front some_ (fun char member => (plain char member).1) cut,split]
      exact .cons .name others
    · intro char member
      rcases List.mem_append.mp member with left | right
      · exact (plain char left).2
      · exact spaces char right
  | other follows =>
    obtain ⟨bodies,all_,split,_,spaces⟩ := follows_tokens follows valid
    exact ⟨split.symm ▸ all_,spaces⟩

theorem spaced_filter (spaced : Spaced printed text) : text.filter (· ≠ space) = printed.filter (· ≠ space) := by
  induction spaced with
  | nil => rfl
  | @char _ _ char _ ih => rw [List.filter_cons,List.filter_cons,ih]
  | space _ ih => rw [List.filter_cons_of_neg (by decide),ih]

end Pieces

section Tokens

theorem whole_digits {text : Text} (numeric : ∀ char ∈ text, isDigit char = true) :
    text.takeWhile isDigit = text ∧ text.dropWhile isDigit = [] := by
  obtain ⟨_,stop,whole⟩ := leading_parts text
  have behind : text.dropWhile isDigit = [] := by
    cases rest : text.dropWhile isDigit with
    | nil => rfl
    | cons char later =>
      have other := stop char (by rw [rest]; rfl)
      have member : char ∈ text := by
        rw [← whole,rest]
        exact List.mem_append_right _ List.mem_cons_self
      rw [numeric char member] at other
      cases other
  rw [behind,List.append_nil] at whole
  exact ⟨whole,behind⟩

theorem joined_parts {pieces : List Text} (two : 2 ≤ pieces.length)
    (numeric : ∀ piece ∈ pieces, ∀ char ∈ piece, isDigit char = true) : ∃ first ∈ pieces, ∃ later,
      ([comma].intercalate pieces).takeWhile isDigit = first ∧ ([comma].intercalate pieces).dropWhile isDigit = comma::later := by
  cases pieces with
  | nil => cases two
  | cons first rest =>
    cases rest with
    | nil => exact absurd two (Nat.not_succ_le_self 1)
    | cons next rest =>
      have digits := numeric first List.mem_cons_self
      refine ⟨first,List.mem_cons_self,[comma].intercalate (next::rest),?_,?_⟩
      · rw [List.intercalate_cons_cons,List.append_assoc,List.takeWhile_append_of_pos digits,List.singleton_append,
          List.takeWhile_cons_of_neg (by decide),List.append_nil]
      · rw [List.intercalate_cons_cons,List.append_assoc,List.dropWhile_append_of_pos digits,List.singleton_append,
          List.dropWhile_cons_of_neg (by decide)]

theorem withCoordinates_same {token : Text} (plain : ¬IsCoordinates token) : withCoordinates (tokenOf token) = tokenOf token := by
  unfold withCoordinates
  exact if_neg fun coordinates => plain ((classified_coordinates token).mp coordinates)

theorem body_holds {component : Component} (valid : component.Valid) (body : Body component text) :
    ¬Endless text ∧ Holds component (some (withCoordinates (tokenOf text))) := by
  cases body with
  | name =>
    obtain ⟨some_,named,start⟩ := valid
    cases text with
    | nil => exact absurd rfl some_
    | cons char rest =>
      have other : isDigit char = false := start char rfl
      have plain := named char List.mem_cons_self
      have noComma : char ≠ comma := by
        rintro rfl
        exact absurd plain (by decide)
      have front : (char::rest).takeWhile isDigit = [] := List.takeWhile_cons_of_neg (by rw [other]; decide)
      have behind : (char::rest).dropWhile isDigit = char::rest := List.dropWhile_cons_of_neg (by rw [other]; decide)
      have type : classified (char::rest) = (.localName,0) := by
        rw [classified,front,behind,ending,if_neg noComma]
      have noCoordinates : ¬IsCoordinates (char::rest) := by
        rw [← classified_coordinates,type]
        decide
      refine ⟨?_,?_⟩
      · rintro (long | ⟨coordinates,_⟩)
        · rw [leadingDigits,front] at long
          exact absurd long (by decide)
        · exact noCoordinates coordinates
      · rw [withCoordinates_same noCoordinates]
        exact ⟨by rw [tokenOf,type],rfl⟩
  | @index number _ numeral =>
    obtain ⟨some_,numeric⟩ := numeral_digits numeral
    have value := numeral_reads numeral valid.2
    have before : wrapIndex (number-1) = number-1 := by
      obtain ⟨one,small⟩ := valid
      exact wrapIndex_small (by omega) (by omega)
    obtain ⟨front,behind⟩ := whole_digits numeric
    have type : classified text = (.localIndex,(number : Int)) := by
      rw [classified,front,behind,value]
      rfl
    have noCoordinates : ¬IsCoordinates text := by
      rw [← classified_coordinates,type]
      exact fun other => by cases other
    refine ⟨?_,?_⟩
    · rintro (long | ⟨coordinates,_⟩)
      · rw [leadingDigits,front] at long
        exact absurd numeral.short (Nat.not_lt_of_le long)
      · exact noCoordinates coordinates
    · rw [withCoordinates_same noCoordinates]
      exact ⟨by rw [tokenOf,type],by rw [tokenOf,type]; exact before⟩
  | @coordinates numbers texts numerals =>
    obtain ⟨two,fits,small⟩ := valid
    obtain ⟨each,values,count⟩ := numerals_read numerals small
    obtain ⟨first,inside,later,front,behind⟩ := joined_parts (by rw [count]; exact two) fun piece member => (each piece member).2.1
    have commas : IsCoordinates ([comma].intercalate texts) := by
      rw [IsCoordinates,behind]
      rfl
    have numbers_ : numbersOf ([comma].intercalate texts) = texts := by
      refine strtok_joined fun piece member => ⟨(each piece member).1,fun char here => ?_⟩
      have named := digit_plain ((each piece member).2.1 char here)
      simp only [isNameChar,Bool.and_eq_true,bne_iff_ne] at named
      exact beq_eq_false_iff_ne.mpr named.1.2
    have type := (classified_coordinates _).mpr commas
    refine ⟨?_,?_⟩
    · rintro (long | ⟨_,piece,member,long⟩)
      · rw [leadingDigits,front] at long
        exact absurd (each first inside).2.2 (Nat.not_le_of_lt long)
      · rw [numbers_] at member
        exact absurd (each piece member).2.2 (Nat.not_le_of_lt long)
    · have written := writeSlots_exact texts [] hdf5MaxDims (by rw [count]; exact fits)
      rw [List.length_nil,List.nil_append,List.nil_append,count] at written
      unfold withCoordinates
      rw [if_pos (show (tokenOf _).variableNameType = .localCoordinates from type)]
      refine ⟨type,?_⟩
      rw [show (tokenOf ([comma].intercalate texts)).variableLocalName = [comma].intercalate texts from rfl,numbers_]
      rw [show (tokenOf ([comma].intercalate texts)).variableLocalCoordinates = List.replicate hdf5MaxDims none from rfl,written]
      have same : texts.map (fun number => some (readDigits number 0)) = numbers.map (fun number : Nat => some (number : Int)) := by
        have again := congrArg (List.map some) values
        rwa [List.map_map,List.map_map] at again
      rw [same]

end Tokens

-- What a path is printed as is read back as the path, whatever the queue held before.
theorem makeVarnameQueue_prints (varnameQueue : Queue Nat) (components : List Component) (printed : Text) (name : CString)
    (valid : ∀ component ∈ components, component.Valid) (prints : Prints components printed) (spaced : Spaced printed name.text) :
    ∃ fuel heap, makeVarnameQueue fuel varnameQueue name.text = some heap ∧ Restarted heap.varnameQueue ∧
      List.Forall₂ Holds components heap.queued := by
  obtain ⟨bodies,spaces⟩ := prints_tokens prints valid
  have tokens : tokensOf name.text = strtok isDelimiter printed := by
    unfold tokensOf
    rw [spaced_filter spaced,List.filter_eq_self.mpr fun char member => by simpa using spaces char member]
  have holds : (∀ token ∈ strtok isDelimiter printed, ¬Endless token) ∧ List.Forall₂ Holds components
      ((strtok isDelimiter printed).map fun token => some (withCoordinates (tokenOf token))) := by
    generalize strtok isDelimiter printed = texts at bodies
    clear prints
    induction bodies with
    | nil => exact ⟨fun token member => absurd member List.not_mem_nil,.nil⟩
    | cons body _ ih =>
      obtain ⟨ends,here⟩ := body_holds (valid _ List.mem_cons_self) body
      obtain ⟨others,rest⟩ := ih fun component member => valid component (List.mem_cons_of_mem _ member)
      refine ⟨fun token member => ?_,.cons here rest⟩
      rcases List.mem_cons.mp member with rfl | later
      · exact ends
      · exact others token later
  obtain ⟨heap,ran,restarted,queued⟩ := makeVarnameQueue_exact varnameQueue name
    (fun token member => holds.1 token (by rwa [← tokens])) (Nat.le_refl 256)
  refine ⟨256,heap,ran,restarted,?_⟩
  rw [queued,tokens]
  exact holds.2

-- "a { 3 } . b( 2,1)"
theorem makeVarnameQueue_prints_path : ∃ fuel heap,
    makeVarnameQueue fuel initQueue [97,32,123,32,51,125,46,98,40,50,44,49,41] = some heap ∧ Restarted heap.varnameQueue ∧
      List.Forall₂ Holds [.name [97],.index 3,.name [98],.coordinates [2,1]] heap.queued := by
  refine makeVarnameQueue_prints initQueue [.name [97],.index 3,.name [98],.coordinates [2,1]]
    [97,123,51,125,46,98,40,50,44,49,41] ⟨[97,32,123,32,51,125,46,98,40,50,44,49,41],by simp⟩ ?_ ?_ ?_
  · simp only [List.forall_mem_cons]
    have a : isNameChar 97 = true ∧ isDigit 97 = false := by decide
    have b : isNameChar 98 = true ∧ isDigit 98 = false := by decide
    exact ⟨⟨by simp,by simpa using a.1,by simpa using a.2⟩,⟨by decide,by decide⟩,⟨by simp,by simpa using b.1,by simpa using b.2⟩,
      ⟨by decide,by decide,by decide⟩,fun _ member => absurd member List.not_mem_nil⟩
  · have two : Numeral 2 [50] := ⟨⟨0,by decide⟩,by decide⟩
    have one : Numeral 1 [49] := ⟨⟨0,by decide⟩,by decide⟩
    have three : Numeral 3 [51] := ⟨⟨0,by decide⟩,by decide⟩
    have last : Follows [.coordinates [2,1]] (40::[comma].intercalate [[50],[49]]++41::[]) :=
      .parentheses rfl (.coordinates (.cons two (.cons one .nil))) .nil
    have field : Follows [.name [98],.coordinates [2,1]] (dot::[98]++(40::[comma].intercalate [[50],[49]]++41::[])) := .name last
    exact .named (.braces rfl (.index three) field)
  · exact .char (.space (.char (.space (.char (.char (.char (.char (.char (.char (.char (.char (.char .nil))))))))))))

end VarnameQueue
end GetMatVar
