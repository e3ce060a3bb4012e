/-
The names of persons that invented records draw from, by language.
-/

namespace Specimen.Locale.Names

def englishFirst : List String :=
  ["Alice", "Andrew", "Anna", "Arthur", "Caroline", "Charles", "Clara",
   "Daniel", "Edward", "Eleanor", "Emily", "Frank", "George", "Grace", "Helen",
   "Henry", "Isabel", "James", "Jane", "John", "Julia", "Laura", "Louis",
   "Lucy", "Margaret", "Martin", "Mary", "Michael", "Nora", "Oliver", "Paul",
   "Peter", "Robert", "Rose", "Ruth", "Samuel", "Sarah", "Simon", "Thomas",
   "Victor", "Walter", "William"]

def englishLast : List String :=
  ["Adams", "Allen", "Baker", "Bell", "Brown", "Carter", "Clark", "Collins",
   "Cooper", "Davis", "Edwards", "Evans", "Fisher", "Foster", "Gray", "Green",
   "Hall", "Harris", "Hill", "Hughes", "Jackson", "Johnson", "Jones", "Kelly",
   "King", "Lewis", "Martin", "Miller", "Moore", "Morgan", "Murphy", "Parker",
   "Phillips", "Price", "Reed", "Roberts", "Rogers", "Scott", "Smith",
   "Stewart", "Taylor", "Thomas", "Turner", "Walker", "Ward", "Watson", "White",
   "Williams", "Wilson", "Wood", "Wright", "Young"]

def japaneseFirst : List String :=
  ["あかり", "いろは", "さくら", "すず", "すみれ", "はな", "ひかり", "ひまり", "一翔", "一花",
   "一華", "一颯", "七海", "丈", "乃愛", "仁", "伊織", "依茉", "健", "健人", "健斗", "優",
   "優月", "光", "光希", "光莉", "凛", "凜", "凪", "匠", "匠海", "千愛", "千晴", "和", "和奏",
   "和花", "咲", "咲希", "咲来", "咲良", "咲茉", "啓太", "圭", "壮真", "大和", "大晴", "大智",
   "大知", "大翔", "大誠", "太陽", "奏", "奏多", "奏太", "奏斗", "奏汰", "実桜", "尊", "岳",
   "彩心", "彩葉", "律", "心", "心咲", "心春", "心結", "心陽", "心音", "怜", "悠", "悠人",
   "悠仁", "悠斗", "悠生", "悠真", "悠翔", "愛", "愛莉", "愛菜", "慧", "慶", "文乃", "新",
   "新太", "旭", "明莉", "晴", "晴大", "晴斗", "晴翔", "暖", "朔", "朝陽", "未来", "朱莉", "杏",
   "杏奈", "柚乃", "柚希", "柚月", "柚葉", "栞", "栞奈", "桔平", "桜", "楓", "樹", "櫂", "海斗",
   "海翔", "涼太", "湊", "湊介", "湊士", "湊大", "湊斗", "湊翔", "潤", "澪", "煌", "煌大",
   "玲奈", "理仁", "琉生", "琴葉", "琴音", "瑛太", "瑛斗", "瑛翔", "百花", "碧", "碧人", "碧斗",
   "空", "紗奈", "紗良", "紗菜", "紬", "紬希", "紬葵", "結", "結人", "結愛", "結斗", "結月",
   "結翔", "結菜", "結衣", "結香", "絢斗", "綾乃", "綾人", "美優", "美月", "美桜", "美波",
   "美海", "美結", "美緒", "美羽", "翔", "翼", "航", "花", "花音", "芽依", "芽生", "芽衣",
   "莉央", "莉子", "莉愛", "莉緒", "菫", "華", "葵", "蒼", "蒼人", "蒼士", "蒼大", "蒼太",
   "蒼生", "蒼空", "蒼翔", "蓮", "蘭", "詩", "詩織", "迅", "遥斗", "陸", "陸斗", "陽", "陽向",
   "陽咲", "陽大", "陽太", "陽斗", "陽翔", "陽菜", "陽菜乃", "陽葵", "風花", "颯", "颯人",
   "颯太", "颯斗", "颯汰", "颯真"]

def japaneseLast : List String :=
  ["佐藤", "鈴木", "高橋", "田中", "伊藤", "山本", "渡辺", "中村", "小林", "加藤", "吉田",
   "山田", "佐々木", "山口", "松本", "井上", "木村", "林", "斎藤", "清水", "山崎", "阿部", "森",
   "池田", "橋本", "山下", "石川", "中島", "前田", "藤田", "後藤", "小川", "岡田", "村上",
   "長谷川", "近藤", "石井", "斉藤", "坂本", "遠藤", "藤井", "青木", "福田", "三浦", "西村",
   "藤原", "太田", "松田", "原田", "岡本", "中野", "中川", "小野", "田村", "竹内", "金子",
   "中山", "和田", "石田", "工藤", "上田", "原", "森田", "酒井", "横山", "柴田", "宮崎", "宮本",
   "内田", "高木", "谷口", "安藤", "丸山", "今井", "大野", "高田", "菅原", "河野", "武田",
   "藤本", "上野", "杉山", "千葉", "村田", "増田", "小島", "小山", "大塚", "平野", "久保",
   "渡部", "松井", "菊地", "岩崎", "松尾", "佐野", "木下", "野口", "野村", "新井"]

def chineseFirst : List String :=
  ["文辉", "杰邦", "文材", "文渊", "文达", "明轩", "彬华", "瀚福", "厉轩", "杰裕", "俊胜",
   "睿轩", "远旭", "寒烟", "杰毅", "鸿灿", "远鸿", "文兴", "志国", "鼎遥", "镜宇", "鸿承",
   "俊伟", "鼎翎", "修永", "世图", "俊新", "冠宇", "寒云", "瀚君", "弘玮", "韵杰", "杰雄",
   "文霖", "俊帆", "昌凯", "德春", "杰书", "昌翔", "德元", "乐奇", "旭翰", "君乾", "任平",
   "泽信", "圣国", "弘耀", "博远", "月阳", "泰玄", "伦博", "龙德", "鼎佑", "哲瀚", "弘振",
   "昌云", "新远", "贵依", "俊颜", "文来", "玮轩", "鼎鸿", "秋风", "荣银", "志辉", "博伦",
   "荣春", "睿博", "世康", "瀚景", "智涛", "晋运", "杰翔", "晋刚", "明新", "展瀚", "杰依",
   "昌毅", "风涛", "寒承", "圣帆", "明志", "旭冠", "玮博", "宇灿", "雨瑞", "清泉", "月星",
   "志欧", "德宝", "文韵", "文祖", "文春", "韵宇", "光耀", "弘靖", "君翔", "棋博", "弘浩",
   "宇驰", "文驰", "彬逸", "瀚舟", "新杰", "哲南", "志邦", "泽君", "文辰", "玮畅", "彬城",
   "涛胜", "晋永", "涛羽", "鼎宇", "棋翰", "贵博", "桦楠", "志伟", "弘邦", "明瑞", "柯勤",
   "青松", "德轩", "翰辰", "远乔", "鸿祥", "翰颜", "杉晖", "金福", "远瑾", "博尘", "晋岳",
   "德石", "海杉", "鼎承", "明健", "瀚诚", "浩新", "彬琪", "城德", "鼎智", "圣天", "晋枝",
   "德君", "曲漾", "翰逸", "若菲", "博泰", "秀永", "宇瀚", "君裕", "仁顺", "鼎风", "辰逸",
   "杰奥", "百川", "瀚德", "浩诚", "杰宏", "昌奇", "丰瞻", "博仁", "文皓", "俊龙", "彬锐",
   "畅瑞", "昌贤", "雪松", "玉燕", "春柏", "楠素", "君壁", "睿娇", "甜英", "向卉", "丽梅",
   "芙香", "云昕", "馥烟", "娜盈", "娜漫", "凝雁", "紫槐", "雪娅", "冰兰", "幻莲", "雪柳",
   "冰旋", "甜熙", "沛珊", "语雅", "芳虹", "若雪", "雨珍", "春竹", "妙香", "花萍", "惜茵",
   "沐娟", "月爽", "瑜柔", "红芍", "秋柔", "紫呜", "娇语", "雅瑾", "妙筠", "琪涵", "秋荷",
   "茹婕", "冰婉", "雨双", "雨雪", "映倚", "翠竹", "珍美", "怡钰", "馨梨", "娅楠", "晓巧",
   "雪芳", "韵雪", "以菱", "静影", "依云", "凌瑶", "巧春", "安荷", "佳红", "雁卉", "菲霞",
   "莉梦", "梦芹", "月虹", "以萱", "红芳", "水云", "幻丝", "语凤", "香怡", "婷莉", "依柏",
   "润慧", "雪曦", "璇盈", "平绿", "乐丹", "紫真", "念薇", "春儿", "谷波", "菡颖", "秋春",
   "蕾碧", "珊琴", "翠柳", "芹香", "云燕", "紫超", "艳姗", "瑜昕", "念芹", "静琪", "柔雅",
   "宛凝", "沛菡", "醉蝶", "语嫣", "幻紫", "萱雅", "绮彤", "香菱", "若蕾", "晓玫", "馨蕊",
   "水瑶", "珊缦", "芳菲", "海桃", "雅儿", "蕾雅", "碧彤", "黛亦", "蝶葵", "淑颖", "寻春",
   "梅雪", "如春", "紫怡", "妍芳", "静璇", "昕怡", "醉珊", "紫芳", "雨嘉", "晓青", "艳蓉",
   "采菡", "清云", "婕莲", "冰烟", "玫雅", "雅彤", "茹桃", "紫薇", "思芳", "冰颖", "晓亦",
   "含樱", "菲槐", "水莹", "水冰", "彤旋", "月霞", "丹华", "海亦", "晴柔", "曦奇", "歆翠"]

def chineseLast : List String :=
  ["王", "李", "张", "刘", "陈", "杨", "黄", "赵", "吴", "周", "徐", "孙", "马", "朱", "胡",
   "郭", "何", "高", "林", "郑", "谢", "罗", "梁", "宋", "唐", "许", "韩", "冯", "邓", "曹",
   "彭", "曾", "萧", "田", "董", "袁", "潘", "于", "蒋", "蔡", "余", "杜", "叶", "程", "苏",
   "魏", "吕", "丁", "任", "沈", "姚", "卢", "姜", "崔", "钟", "谭", "陆", "汪", "范", "金",
   "石", "廖", "贾", "夏", "韦", "付", "方", "白", "邹", "孟", "熊", "秦", "邱", "江", "尹",
   "薛", "闫", "段", "雷", "侯", "龙", "史", "陶", "黎", "贺", "顾", "毛", "郝", "龚", "邵",
   "万", "钱", "严", "覃", "武", "戴", "莫", "孔", "向", "汤", "欧阳"]

end Specimen.Locale.Names
