/-
The forms of numbers in addresses and contacts. In a form a caret stands for a
digit from 1 to 9 and a number sign for any digit.
-/

namespace Specimen.Locale.Forms

def americanPhones : List String :=
  ["(^##) ###-#### x###", "(^##) ###-#### x####", "(^##) ###-#### x#####",
   "(^##) ###-####", "1-^##-###-#### x###", "1-^##-###-#### x####",
   "1-^##-###-#### x#####", "1-^##-###-####", "^##-###-#### x###",
   "^##-###-#### x####", "^##-###-#### x#####", "^##-###-####",
   "^##.###.#### x###", "^##.###.#### x####", "^##.###.#### x#####",
   "^##.###.####"]

def frenchPhones : List String :=
  ["01 ## ## ## ##", "02 ## ## ## ##", "03 ## ## ## ##", "04 ## ## ## ##",
   "05 ## ## ## ##", "08 ## ## ## ##", "09 ## ## ## ##"]

def brazilianPhones : List String :=
  ["(^#) 2###-####", "(^#) 3###-####", "(^#) 4###-####"]

def houseNumbers : List String :=
  ["#####", "####", "###"]

def americanPostcodes : List String :=
  ["#####", "#####-####"]

def frenchPostcodes : List String :=
  ["#####"]

def brazilianPostcodes : List String :=
  ["#####-###"]

def englishCompanyForms : List String :=
  ["Inc", "and Sons", "LLC", "Group"]

def japaneseCompanyForms : List String :=
  ["株式会社", "(株)", "有限会社", "(有)"]

end Specimen.Locale.Forms
