/-
Invented personal and postal data: the locales that have a provider, the kinds
of data, and the draw that makes one entry.
-/
import Specimen.Locale.Forms
import Specimen.Locale.Names
import Specimen.Locale.Places
import Specimen.Random.Draws
import Specimen.Text.Blank

namespace Specimen

/-- The locales with a provider. -/
inductive Locale where
  | enUs
  | frFr
  | ptBr
  | jaJp
  | zhCn
deriving Repr, DecidableEq

namespace Locale

/-- The locale of a tag. Blanks at the ends, the case of letters and the choice
between hyphen and underscore do not matter. -/
def ofTag? (tag : String) : Option Locale :=
  let plain :=
    (Text.trimmed tag).map fun c => if c = '-' then '_' else c.toLower
  match plain with
  | "en" => some enUs
  | "en_us" => some enUs
  | "fr_fr" => some frFr
  | "pt_br" => some ptBr
  | "ja_jp" => some jaJp
  | "zh_cn" => some zhCn
  | _ => none

def firstNames : Locale → List String
  | jaJp => Names.japaneseFirst
  | zhCn => Names.chineseFirst
  | _ => Names.englishFirst

def lastNames : Locale → List String
  | jaJp => Names.japaneseLast
  | zhCn => Names.chineseLast
  | _ => Names.englishLast

/-- A first name and a family name in the order of the locale. -/
def fullName (locale : Locale) (first last : String) : String :=
  match locale with
  | jaJp => last ++ " " ++ first
  | zhCn => last ++ first
  | _ => first ++ " " ++ last

def divisions : Locale → List String
  | ptBr => Places.brazilianStates
  | _ => Places.americanStates

def phones : Locale → List String
  | frFr => Forms.frenchPhones
  | ptBr => Forms.brazilianPhones
  | _ => Forms.americanPhones

def postcodes : Locale → List String
  | frFr => Forms.frenchPostcodes
  | ptBr => Forms.brazilianPostcodes
  | _ => Forms.americanPostcodes

def companyForms : Locale → List String
  | jaJp => Forms.japaneseCompanyForms
  | _ => Forms.englishCompanyForms

/-- The two ways to name a company from two family names and a legal form. -/
def companyNames (locale : Locale) (first second form : String) : List String :=
  match locale with
  | jaJp => [first ++ " " ++ form, form ++ " " ++ first]
  | _ => [first ++ " " ++ form, first ++ " and " ++ second ++ " " ++ form]

end Locale

/-- The kinds of invented data. -/
inductive Detail where
  | firstName
  | lastName
  | middleName
  | phoneNumber
  | email
  | country
  | city
  | street
  | houseNumber
  | postcode
  | administrativeUnit
  | companyName
  | bankName
deriving Repr, DecidableEq

namespace Detail

/-- The kind of data that a template function of this name gives. -/
def ofFunctionName? : String → Option Detail
  | "first_name" => some firstName
  | "last_name" => some lastName
  | "middle_name" => some middleName
  | "phone_number" => some phoneNumber
  | "email" => some email
  | "country" => some country
  | "city" => some city
  | "street" => some street
  | "house_number" => some houseNumber
  | "postcode" => some postcode
  | "administrative_unit" => some administrativeUnit
  | "company_name" => some companyName
  | "bank_name" => some bankName
  | _ => none

def pick (table : List String) : Draw String :=
  return (← Draw.choose table).getD ""

/-- A character of a form with its digit drawn, if it stands for one. -/
def fillPlace (c : Char) : Draw Char := do
  if c = '^' then return Nat.digitChar (1 + (← Draw.below .word 9))
  else if c = '#' then return Nat.digitChar (← Draw.below .word 10)
  else return c

def pickForm (table : List String) : Draw String := do
  let form ← pick table
  return String.ofList (← form.toList.mapM fillPlace)

/-- A town: rarely a starting word, a full name and an ending, else a first or
family name and an ending. -/
def drawCity (locale : Locale) : Draw String := do
  match ← Draw.below .word 5 with
  | 0 =>
    let start ← pick Locale.Places.townStarts
    let first ← pick locale.firstNames
    let last ← pick locale.lastNames
    let ending ← pick Locale.Places.townEndings
    return start ++ " " ++ locale.fullName first last ++ " " ++ ending
  | 1 =>
    let name ← pick locale.firstNames
    return name ++ " " ++ (← pick Locale.Places.townEndings)
  | _ =>
    let name ← pick locale.lastNames
    return name ++ " " ++ (← pick Locale.Places.townEndings)

def drawStreet (locale : Locale) : Draw String := do
  let named ← Draw.word
  let name ← pick
    (if named ≥ 0x80000000 then locale.firstNames else locale.lastNames)
  return name ++ " " ++ (← pick Locale.Places.streetKinds)

/-- A company: the way of naming is drawn before the parts, and all parts are
drawn. -/
def drawCompany (locale : Locale) : Draw String := do
  let way ← Draw.index 2
  let first ← pick locale.lastNames
  let second ← pick locale.lastNames
  let form ← pick locale.companyForms
  return (locale.companyNames first second form)[way]?.getD ""

/-- A mail address in one of the domains kept for examples. -/
def drawEmail (locale : Locale) : Draw String := do
  let user ← pick locale.firstNames
  let domain ← pick ["com", "net", "org"]
  return Text.lowercase user ++ "@example." ++ domain

def draw (detail : Detail) (locale : Locale) : Draw String :=
  match detail with
  | firstName => pick locale.firstNames
  | middleName => pick locale.firstNames
  | lastName => pick locale.lastNames
  | phoneNumber => pickForm locale.phones
  | email => drawEmail locale
  | country => pick Locale.Places.countries
  | city => drawCity locale
  | street => drawStreet locale
  | houseNumber => pickForm Locale.Forms.houseNumbers
  | postcode => pickForm locale.postcodes
  | administrativeUnit => pick locale.divisions
  | companyName => drawCompany locale
  | bankName => drawCompany locale

end Detail

end Specimen
